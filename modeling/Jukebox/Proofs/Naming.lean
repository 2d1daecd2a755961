import Jukebox.Proofs.PreloadDue
import Jukebox.Proofs.Shuffle

/-!
# How a player names what it renders

A player says which item it renders by the id of the item, or only by the uri of the stream: the
file that the uri ends in is then called by the id. A uri that names an item of the list in a queue
does the same as the id of that item (`uri_names_as_id`). It differs from the id where the list holds
no such item: the id loses the position, and the uri leaves it alone.
-/

namespace Jukebox

namespace Text

theorem occursIn_iff {part cs : List Char} : occursIn part cs = true ↔ part <:+: cs := by
  induction cs with
  | nil => simp [occursIn]
  | cons c cs ih => simp [occursIn, ih, List.infix_cons_iff]

theorem afterLast_append {mark : Char} (front : List Char) {back : List Char}
    (hback : mark ∉ back) : afterLast mark (front ++ mark :: back) = back := by
  have hpass : ∀ c ∈ back.reverse, decide (c ≠ mark) = true := by
    intro c hc
    have hne : c ≠ mark := fun heq => hback (heq ▸ List.mem_reverse.1 hc)
    simpa using hne
  rw [afterLast, List.reverse_append, List.reverse_cons, List.append_assoc,
    List.takeWhile_append_of_pos hpass]
  simp

theorem beforeFirst_append {mark : Char} {front : List Char} (hfront : mark ∉ front)
    (back : List Char) : beforeFirst mark (front ++ mark :: back) = front := by
  have hpass : ∀ c ∈ front, decide (c ≠ mark) = true := by
    intro c hc
    have hne : c ≠ mark := fun heq => hfront (heq ▸ hc)
    simpa using hne
  rw [beforeFirst, List.takeWhile_append_of_pos hpass]
  simp

/-- Whether a uri leads to a file that is called by an id, whatever its extension. -/
def LeadsToFile (uri itemId : String) : Prop :=
  ∃ folder extension : String, '/' ∉ extension.toList ∧
    uri = folder ++ "/" ++ itemId ++ "." ++ extension

theorem LeadsToFile.fileStem_eq {uri itemId : String} (hfile : LeadsToFile uri itemId)
    (hslash : '/' ∉ itemId.toList) (hdot : '.' ∉ itemId.toList) : fileStem uri = itemId := by
  obtain ⟨folder, extension, hextension, rfl⟩ := hfile
  have hname : (folder ++ "/" ++ itemId ++ "." ++ extension).toList =
      folder.toList ++ '/' :: (itemId.toList ++ '.' :: extension.toList) := by simp
  have hplain : '/' ∉ itemId.toList ++ '.' :: extension.toList := by simp [hslash, hextension]
  rw [fileStem, hname, afterLast_append _ hplain, beforeFirst_append hdot, String.ofList_toList]

end Text

/-- What a player tells of an item by its id. -/
def CurrentMedia.byId (uri queueId : Option String) (itemId : String) : CurrentMedia :=
  { uri, queueId, queueItemId := some itemId }

/-- What a player tells of a stream by its uri alone. -/
def CurrentMedia.byUri (uri : String) (queueId : Option String) : CurrentMedia :=
  { uri := some uri, queueId }

namespace PlayerReport

/-- The report of a player that renders other media. -/
def rendering (r : PlayerReport) (media : CurrentMedia) : PlayerReport :=
  { r with currentMedia := some media }

variable (r : PlayerReport) (media : CurrentMedia)

@[simp] theorem playerId_rendering : (r.rendering media).playerId = r.playerId := rfl

end PlayerReport

namespace Hub

variable {h : Hub} {o : Outside} {r : PlayerReport} {e : Entry} {items : List QueueItem}

/-! ## The item that is named -/

theorem not_foreign {queueId : Option String} {own : String} (hqueue : ∀ id ∈ queueId, id = own) :
    ¬queueId.any (· ≠ own) = true := by
  rw [Option.any_eq_true]
  rintro ⟨id, hid, hne⟩
  exact of_decide_eq_true hne (hqueue id hid)

theorem reportedItem?_byId {queueId : Option String} (hqueue : ∀ id ∈ queueId, id = r.playerId)
    (uri : Option String) (itemId : String) :
    reportedItem? r.playerId (r.rendering (.byId uri queueId itemId)) items = some itemId := by
  have hown : ¬queueId.any (· ≠ r.playerId) = true := not_foreign hqueue
  simp only [reportedItem?, PlayerReport.rendering, CurrentMedia.byId, if_neg hown]

theorem reportedItem?_byUri {queueId : Option String} (hqueue : ∀ id ∈ queueId, id = r.playerId)
    {uri : String} (hcontains : r.playerId.toList <:+: uri.toList)
    (hlisted : Text.fileStem uri ∈ ids items) :
    reportedItem? r.playerId (r.rendering (.byUri uri queueId)) items =
      some (Text.fileStem uri) := by
  have hown : ¬queueId.any (· ≠ r.playerId) = true := not_foreign hqueue
  have hfound : items.any (·.id = Text.fileStem uri) = true := by
    obtain ⟨item, hitem, hid⟩ := List.mem_map.1 hlisted
    exact List.any_eq_true.2 ⟨item, hitem, decide_eq_true hid⟩
  simp only [reportedItem?, PlayerReport.rendering, CurrentMedia.byUri, if_neg hown,
    Text.occursIn_iff.2 hcontains, hfound, if_true]

/-- A uri names an item of the list or none. -/
theorem of_reportedItem?_byUri {queueId : Option String} {uri itemId : String}
    (hnamed : reportedItem? r.playerId (r.rendering (.byUri uri queueId)) items = some itemId) :
    itemId = Text.fileStem uri ∧ r.playerId.toList <:+: uri.toList ∧ itemId ∈ ids items := by
  simp only [reportedItem?, PlayerReport.rendering, CurrentMedia.byUri] at hnamed
  split at hnamed
  · cases hnamed
  · split at hnamed
    · next hcontains =>
      split at hnamed
      · next hlisted =>
        cases hnamed
        exact ⟨rfl, Text.occursIn_iff.1 hcontains, by simpa [ids] using hlisted⟩
      · cases hnamed
    · cases hnamed

/-! ## What a report does with it -/

/-- Of the media only the item that they name matters. -/
theorem onReport_rendering {media media' : CurrentMedia}
    (hsame : ∀ e, h.entry? r.playerId = some e →
      reportedItem? r.playerId (r.rendering media) e.items =
        reportedItem? r.playerId (r.rendering media') e.items) :
    h.onReport o (r.rendering media) = h.onReport o (r.rendering media') := by
  cases he : h.entry? r.playerId with
  | none =>
    rw [onReport_unknown (r := r.rendering media) o he,
      onReport_unknown (r := r.rendering media') o he]
  | some e =>
    have hposition : ∀ q, atReportedPosition q e.items (r.rendering media) o.clock =
        atReportedPosition q e.items (r.rendering media') o.clock := by
      intro q
      simp only [atReportedPosition, PlayerReport.playerId_rendering, hsame e he]
      rfl
    have hafter : ∀ q, afterReport q e.items (r.rendering media) o.clock =
        afterReport q e.items (r.rendering media') o.clock := by
      intro q
      simp only [afterReport, hposition]
      rfl
    simp only [onReport, PlayerReport.playerId_rendering, he, hafter]
    rfl

/-- Outside flow mode a report by uri moves the position only to the item that the uri names. -/
theorem reportedIndex_byUri {q : Queue} (hflow : q.flowMode = false) (uri : String)
    (queueId : Option String) (clock : Float) :
    reportedIndex q items (r.rendering (.byUri uri queueId)) clock = q.currentIndex ∨
      ∃ index item, reportedIndex q items (r.rendering (.byUri uri queueId)) clock = some index ∧
        items[index]? = some item ∧ item.id = Text.fileStem uri ∧
        r.playerId.toList <:+: uri.toList := by
  unfold reportedIndex
  split
  · simp only [atReportedPosition, hflow, PlayerReport.playerId_rendering]
    cases hnamed : reportedItem? r.playerId (r.rendering (.byUri uri queueId)) items with
    | none => exact .inl rfl
    | some itemId =>
      obtain ⟨rfl, hcontains, hlisted⟩ := of_reportedItem?_byUri hnamed
      obtain ⟨index, hindex⟩ := exists_indexOf?_of_mem hlisted
      have hid := (indexOf?_spec hindex).1
      rw [ids, List.getElem?_map] at hid
      obtain ⟨item, hitem, hid⟩ := Option.map_eq_some_iff.1 hid
      exact .inr ⟨index, item, hindex, hitem, hid, hcontains⟩
  · exact .inl rfl

end Hub

/-- A report leaves a queue where it is, or puts it where the player is. -/
theorem Entry.place_reported (e : Entry) (o : Outside) (r : PlayerReport) :
    ((e.reported o r).queue.currentIndex = e.queue.currentIndex ∧
      (e.reported o r).queue.currentItem = e.queue.currentItem) ∨
    ((e.reported o r).queue.currentIndex =
        Hub.reportedIndex (Hub.described e.queue e.items r) e.items r o.clock ∧
      (e.reported o r).queue.currentItem =
        (e.reported o r).queue.currentIndex.bind (e.items[·]?)) := by
  unfold reported
  split
  · exact .inl ⟨rfl, rfl⟩
  · split
    · obtain ⟨claim, radioSource, remembered, heq⟩ :=
        e.followed_eq o (e.remembered.getD {}) (Hub.reportedQueue o r e)
      refine .inr ?_
      rw [heq, Hub.reportedQueue, Hub.afterReport_fields]
      exact ⟨rfl, rfl⟩
    · exact .inl ⟨rfl, rfl⟩

/-- Whether a queue stands where it stood, or at an item of the list that a uri names. -/
def Entry.StaysOrFollows (e after : Entry) (queueId uri : String) : Prop :=
  after.queue.currentIndex = e.queue.currentIndex ∨
    ∃ index item, after.queue.currentIndex = some index ∧ e.items[index]? = some item ∧
      item.id = Text.fileStem uri ∧ queueId.toList <:+: uri.toList

/-- Naming an item of the list by the uri of its stream does the same to the hub as naming it by its
id. And a report by uri makes no item current that is not in the list: outside flow mode it leaves
the position where it was or moves it to the item that the uri names. -/
theorem uri_names_as_id {h : Hub} (hreach : h.Reachable) (o : Outside) (r : PlayerReport)
    {e : Entry} (he : h.entry? r.playerId = some e) :
    (∀ itemId ∈ ids e.items, '/' ∉ itemId.toList → '.' ∉ itemId.toList →
      ∀ uri, r.playerId.toList <:+: uri.toList → Text.LeadsToFile uri itemId →
        ∀ queueId queueId' : Option String, (∀ id ∈ queueId, id = r.playerId) →
          (∀ id ∈ queueId', id = r.playerId) → ∀ uri' : Option String,
            h.onReport o (r.rendering (.byId uri' queueId itemId)) =
              h.onReport o (r.rendering (.byUri uri queueId'))) ∧
      ∀ uri queueId, ∃ after,
        Hub.entry? (h.onReport o (r.rendering (.byUri uri queueId))) r.playerId = some after ∧
          after.items = e.items ∧
          (∀ item, after.queue.currentItem = some item →
            item ∈ e.items ∨ e.queue.currentItem = some item) ∧
          (e.queue.flowMode = false → e.StaysOrFollows after r.playerId uri) := by
  refine ⟨?_, fun uri queueId => ?_⟩
  · intro itemId hlisted hslash hdot uri hcontains hfile queueId queueId' hqueue hqueue' uri'
    refine Hub.onReport_rendering fun e' he' => ?_
    obtain rfl : e = e' := Option.some_inj.1 (he.symm.trans he')
    have hstem := hfile.fileStem_eq hslash hdot
    rw [Hub.reportedItem?_byId hqueue,
      Hub.reportedItem?_byUri hqueue' hcontains (hstem.symm ▸ hlisted), hstem]
  · have hafter : Hub.entry? (h.onReport o (r.rendering (.byUri uri queueId))) r.playerId =
        some (e.reported o (r.rendering (.byUri uri queueId))) := by
      have htouches := Hub.touches_onReport o (r.rendering (.byUri uri queueId)) fun e' he' =>
        hreach.named r.playerId e' he'
      rw [htouches, PlayerReport.playerId_rendering, if_pos rfl, he, Option.map_some]
    refine ⟨_, hafter, (e.reported_eq o _).2.1, fun item hitem => ?_, fun hflow => ?_⟩
    · rcases e.place_reported o (r.rendering (.byUri uri queueId)) with ⟨-, hsame⟩ | ⟨-, hplace⟩
      · exact .inr (hsame.symm.trans hitem)
      · obtain ⟨index, -, hlisted⟩ := Option.bind_eq_some_iff.1 (hplace.symm.trans hitem)
        exact .inl (List.mem_of_getElem? hlisted)
    · rcases e.place_reported o (r.rendering (.byUri uri queueId)) with ⟨hsame, -⟩ | ⟨hplace, -⟩
      · exact .inl hsame
      · unfold Entry.StaysOrFollows
        rw [hplace]
        exact Hub.reportedIndex_byUri (q := Hub.described e.queue e.items _) hflow uri queueId o.clock

/-- While the first of two tracks plays, the player goes on to the second one, which it names by its
id or by the uri of its stream. -/
theorem second_track_named_either_way :
    let h := (House.session.run (House.fill ["a", "b"])).hub
    let r := House.playing "qi1" 100
    let uri := "stream://den/qi2.flac"
    (∃ e, h.Reachable ∧ h.entry? r.playerId = some e ∧ "qi2" ∈ ids e.items) ∧
      r.playerId.toList <:+: uri.toList ∧ Text.LeadsToFile uri "qi2" ∧
      h.onReport House.world (r.rendering (.byId none (some "den") "qi2")) =
        h.onReport House.world (r.rendering (.byUri uri none)) ∧
      (Hub.queue? (h.onReport House.world (r.rendering (.byUri uri none))) "den").bind
        (·.currentIndex) = some 1 := by
  intro h r uri
  have hreach : h.Reachable := ⟨_, _, _, _, _, rfl⟩
  have hfound : (h.entry? r.playerId).any fun e => "qi2" ∈ ids e.items := by decide +kernel
  obtain ⟨e, he, hlisted⟩ := (Option.any_eq_true _ _).1 hfound
  have hlisted : "qi2" ∈ ids e.items := of_decide_eq_true hlisted
  have hcontains : r.playerId.toList <:+: uri.toList :=
    ⟨"stream://".toList, "/qi2.flac".toList, by decide +kernel⟩
  have hfile : Text.LeadsToFile uri "qi2" :=
    ⟨"stream://den", "flac", by decide +kernel, by decide +kernel⟩
  have hsame := (uri_names_as_id hreach House.world r he).1 "qi2" hlisted (by decide +kernel)
    (by decide +kernel) uri hcontains hfile (some "den") none (by simp [r, House.playing, House.den])
    (by simp) none
  exact ⟨⟨e, hreach, he, hlisted⟩, hcontains, hfile, hsame, by decide +kernel⟩

end Jukebox
