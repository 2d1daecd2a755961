import Jukebox.Proofs.Refusing

/-!
# What a request to play starts

A request to play puts its items behind the current one and plays the item that stands at their
place then. Where a queue is shuffled the new items are mixed with the old ones behind them, so an
old item may come first: which one does is drawn, whatever the items are (`Draws.shuffle_first`).
So the item that is played is a new one just if the items are not mixed, or there is nothing behind
them, or the place that was drawn is one of theirs (`request_starts_new_iff`).
-/

namespace Jukebox

/-! ## The first of a drawn order -/

namespace Draws

variable {α β : Type}

theorem exchange_map (f : α → β) (xs : List α) (i j : Nat) :
    exchange (xs.map f) i j = (exchange xs i j).map f := by
  unfold exchange
  rw [List.getElem?_map, List.getElem?_map]
  cases xs[i]? with
  | none => rfl
  | some x =>
    cases xs[j]? with
    | none => rfl
    | some y => simp only [Option.map_some, List.map_set]

theorem shuffleFrom_map (f : α → β) (i : Nat) (d : Draws) (xs : List α) :
    (shuffleFrom i d (xs.map f)).1 = (shuffleFrom i d xs).1.map f := by
  induction i generalizing d xs with
  | zero => rfl
  | succ i ih => simp only [shuffleFrom, exchange_map, ih]

/-- What is drawn are places, whatever stands there. -/
theorem shuffle_map (f : α → β) (d : Draws) (xs : List α) :
    (d.shuffle (xs.map f)).1 = (d.shuffle xs).1.map f := by
  rw [shuffle, shuffle, List.length_map, shuffleFrom_map]

/-- The place whose element comes first when so many elements are shuffled. -/
def firstPlace (d : Draws) (count : Nat) : Nat := (d.shuffle (List.range count)).1.headD 0

theorem shuffle_first (d : Draws) (xs : List α) :
    (d.shuffle xs).1[0]? = xs[d.firstPlace xs.length]? := by
  have hplaces : xs.map some = (List.range xs.length).map (xs[·]?) :=
    List.ext_getElem (by simp) fun n hn _ => by simp
  have hshuffled := congrArg (fun ys => (d.shuffle ys).1[0]?) hplaces
  simp only [shuffle_map, List.getElem?_map] at hshuffled
  rw [firstPlace]
  cases hdrawn : (d.shuffle (List.range xs.length)).1 with
  | nil =>
    have hlength := d.length_shuffle (List.range xs.length)
    rw [hdrawn, List.length_range, List.length_nil] at hlength
    rw [List.eq_nil_of_length_eq_zero hlength.symm]
    rfl
  | cons place others =>
    rw [hdrawn] at hshuffled
    cases hfirst : (d.shuffle xs).1[0]? with
    | none => rw [hfirst] at hshuffled; cases hshuffled
    | some x =>
      rw [hfirst] at hshuffled
      exact Option.some.inj hshuffled

theorem firstPlace_lt (d : Draws) {count : Nat} (hcount : 0 < count) :
    d.firstPlace count < count := by
  have hfirst := d.shuffle_first (List.range count)
  have hlength := d.length_shuffle (List.range count)
  rw [List.length_range] at hfirst hlength
  rw [List.getElem?_eq_getElem (by omega)] at hfirst
  obtain ⟨hlt, -⟩ := List.getElem?_eq_some_iff.1 hfirst.symm
  rwa [List.length_range] at hlt

/-- Elements that are exchanged with themselves stay where they are. -/
theorem shuffleFrom_self {i : Nat} {d : Draws} (hself : ∀ n < i, d.values (d.used + n) = i - n)
    (xs : List α) : (shuffleFrom i d xs).1 = xs := by
  induction i generalizing d xs with
  | zero => rfl
  | succ i ih =>
    have hlast : d.values d.used % (i + 2) = i + 1 := by
      rw [← Nat.add_zero d.used, hself 0 (Nat.succ_pos i), Nat.mod_eq_of_lt (by omega)]
      rfl
    have hsame : exchange xs (i + 1) (i + 1) = xs := by
      unfold exchange
      cases hx : xs[i + 1]? with
      | none => rfl
      | some x =>
        obtain ⟨hlt, rfl⟩ := List.getElem?_eq_some_iff.1 hx
        simp
    rw [shuffleFrom, next]
    dsimp only
    rw [hlast, hsame]
    refine ih (fun n hn => ?_) xs
    have hnext := hself (n + 1) (by omega)
    rw [show d.used + (n + 1) = d.used + 1 + n by omega] at hnext
    exact hnext.trans (by omega)

/-- It can be drawn that the last element comes first. -/
theorem exists_last_first (count : Nat) : ∃ d : Draws, d.firstPlace (count + 1) = count := by
  refine ⟨{ values := fun n => if n = 0 then 0 else count - n }, ?_⟩
  cases count with
  | zero => rfl
  | succ count =>
    rw [firstPlace, shuffle, List.length_range, Nat.add_sub_cancel, shuffleFrom, next]
    dsimp only
    rw [shuffleFrom_self]
    · simp [exchange, List.head?_eq_getElem?]
    · intro n hn
      dsimp only
      rw [if_neg (by omega)]
      omega

end Draws

/-! ## The item at the place of a batch -/

namespace Edit

variable {batch rest old : List QueueItem} {place offset : Nat} {item : QueueItem}

theorem sortIndex_lt_of_mem_numbered (hitem : item ∈ numbered place batch) :
    item.sortIndex < place + batch.length := by
  obtain ⟨n, hn, rfl⟩ := List.mem_iff_getElem.1 hitem
  rw [length_numbered] at hn
  simp only [numbered, List.getElem_mapIdx]
  omega

theorem le_sortIndex_of_mem_renumbered (hitem : item ∈ renumbered offset rest) :
    offset ≤ item.sortIndex := by
  obtain ⟨i, -, rfl⟩ := List.mem_map.1 hitem
  exact Nat.le_add_left _ _

/-- An item at a place of a batch with old items behind it is one of the batch just if its place is
within it. -/
theorem mem_numbered_iff {n : Nat}
    (hitem : (numbered place batch ++ renumbered (place + batch.length) rest)[n]? = some item) :
    (item ∈ numbered place batch ↔ n < batch.length) ∧
      (item ∈ numbered place batch ∨ item ∈ renumbered (place + batch.length) rest) := by
  by_cases hn : n < batch.length
  · rw [List.getElem?_append_left (by rwa [length_numbered])] at hitem
    have hnew := List.mem_of_getElem? hitem
    exact ⟨⟨fun _ => hn, fun _ => hnew⟩, .inl hnew⟩
  · rw [List.getElem?_append_right (by rw [length_numbered]; omega)] at hitem
    have hold := List.mem_of_getElem? hitem
    have hnot : item ∉ numbered place batch := by
      intro hnew
      have hlt := sortIndex_lt_of_mem_numbered hnew
      have hle := le_sortIndex_of_mem_renumbered hold
      omega
    exact ⟨⟨fun hnew => absurd hnew hnot, fun hlt => absurd hlt hn⟩, .inr hold⟩

/-- A batch comes to stand behind what was before its place, and what comes first of it and of the
items behind it is at its place. -/
theorem splice_eq_take_append (d : Draws) (old batch : List QueueItem) (k : Nat) (shuffle : Bool) :
    let upcoming := numbered (min k old.length) batch ++
      renumbered (min k old.length + batch.length) (old.drop k)
    (splice d old batch { insertAt := k, shuffle }).1 =
      old.take k ++ if shuffle then (d.shuffle upcoming).1 else upcoming := by
  have hdrop : old.drop (min k old.length) = old.drop k := by
    rcases Nat.le_total k old.length with hle | hle
    · rw [Nat.min_eq_left hle]
    · rw [Nat.min_eq_right hle, List.drop_length, List.drop_of_length_le hle]
  unfold splice Edit.upcoming
  dsimp only
  rw [hdrop]
  cases shuffle <;> rfl

/-- Where nothing stands behind the place of a batch, an item of the batch is there. -/
theorem first_of_splice_behind (hbatch : batch ≠ []) {k : Nat} (hk : old.length ≤ k) (d : Draws)
    (shuffle : Bool) :
    let list := (splice d old batch { insertAt := k, shuffle }).1
    ∃ item, list[min k (list.length - 1)]? = some item ∧ item ∈ numbered old.length batch := by
  intro list
  obtain ⟨behind, hlist, hperm⟩ : ∃ behind, list = old ++ behind ∧
      behind.Perm (numbered old.length batch) := by
    have hsplice := splice_eq_take_append d old batch k shuffle
    rw [Nat.min_eq_right hk, List.take_of_length_le hk, List.drop_of_length_le hk] at hsplice
    refine ⟨_, hsplice, ?_⟩
    simp only [renumbered, List.map_nil, List.append_nil]
    cases shuffle with
    | false => exact .refl _
    | true => exact d.shuffle_perm _
  have hcount := hperm.length_eq
  rw [length_numbered] at hcount
  have hsome := List.length_pos_iff.2 hbatch
  have hindex : min k (list.length - 1) - old.length < behind.length := by
    rw [hlist, List.length_append]
    omega
  refine ⟨behind[min k (list.length - 1) - old.length], ?_,
    hperm.subset (List.getElem_mem hindex)⟩
  have hbehind : old.length ≤ min k (list.length - 1) := by
    rw [hlist, List.length_append]
    omega
  rw [← List.getElem?_eq_getElem hindex, ← List.getElem?_append_right hbehind, ← hlist]

/-- Where old items stand behind the place of a batch, the item there is the first of the batch with
these, or the one that was drawn to be first. -/
theorem first_of_splice_within (batch : List QueueItem) {k : Nat} (hk : k < old.length) (d : Draws)
    (shuffle : Bool) :
    let list := (splice d old batch { insertAt := k, shuffle }).1
    let drawn := if shuffle then d.firstPlace (batch.length + (old.length - k)) else 0
    list[min k (list.length - 1)]? =
      (numbered k batch ++ renumbered (k + batch.length) (old.drop k))[drawn]? := by
  intro list drawn
  have hsplice := splice_eq_take_append d old batch k shuffle
  rw [Nat.min_eq_left hk.le] at hsplice
  have htake : (old.take k).length = k := by rw [List.length_take, Nat.min_eq_left hk.le]
  have hupcoming : (numbered k batch ++ renumbered (k + batch.length) (old.drop k)).length =
      batch.length + (old.length - k) := by
    rw [List.length_append, length_numbered, length_renumbered, List.length_drop]
  have hcount : list.length = k + (batch.length + (old.length - k)) := by
    rw [show list = _ from hsplice, List.length_append, htake, ← hupcoming]
    cases shuffle with
    | false => rfl
    | true => rw [if_pos rfl, Draws.length_shuffle]
  rw [Nat.min_eq_left (by omega), show list = _ from hsplice,
    List.getElem?_append_right (by omega), htake, Nat.sub_self]
  cases shuffle with
  | false => rfl
  | true =>
    rw [if_pos rfl, Draws.shuffle_first, hupcoming]
    rfl

end Edit

/-- The item at the place of a batch that is put into a list, or at the end of the list if the place
lies behind it, is one of the batch just if the batch is not mixed with the old items behind it, or
there are none, or one of the batch was drawn to come first. Else it is one of the old items. -/
theorem spliced_first_new_iff (old : List QueueItem) {batch : List QueueItem} (hbatch : batch ≠ [])
    (k : Nat) (d : Draws) (shuffle : Bool) :
    let list := (Edit.splice d old batch { insertAt := k, shuffle }).1
    let first := min k old.length
    ∃ item, list[min k (list.length - 1)]? = some item ∧
      (item ∈ Edit.numbered first batch ↔ shuffle = false ∨ old.length ≤ k ∨
        d.firstPlace (batch.length + (old.length - k)) < batch.length) ∧
      (item ∈ Edit.numbered first batch ∨
        item ∈ Edit.renumbered (k + batch.length) (old.drop k)) := by
  intro list first
  rcases Nat.lt_or_ge k old.length with hk | hk
  · have hfirst : first = k := Nat.min_eq_left hk.le
    have hitem := Edit.first_of_splice_within batch hk d shuffle
    dsimp only at hitem
    have hplace : (if shuffle then d.firstPlace (batch.length + (old.length - k)) else 0) <
        (Edit.numbered k batch ++ Edit.renumbered (k + batch.length) (old.drop k)).length := by
      rw [List.length_append, Edit.length_numbered, Edit.length_renumbered, List.length_drop]
      cases shuffle with
      | false => exact Nat.lt_add_right _ (List.length_pos_iff.2 hbatch)
      | true => exact d.firstPlace_lt (by omega)
    rw [List.getElem?_eq_getElem hplace] at hitem
    obtain ⟨hiff, hold⟩ := Edit.mem_numbered_iff (List.getElem?_eq_getElem hplace)
    rw [hfirst]
    refine ⟨_, hitem, hiff.trans ?_, hold⟩
    cases shuffle with
    | false => simpa using List.length_pos_iff.2 hbatch
    | true => simp [hk]
  · obtain ⟨item, hitem, hnew⟩ := Edit.first_of_splice_behind hbatch hk d shuffle
    have hfirst : first = old.length := Nat.min_eq_right hk
    rw [hfirst]
    exact ⟨item, hitem, ⟨fun _ => .inr (.inl hk), fun _ => hnew⟩, .inl hnew⟩

/-- So whatever is drawn it is one of the batch just if the batch is not mixed with old items. -/
theorem spliced_first_always_new_iff {old batch : List QueueItem} (hbatch : batch ≠ []) (k : Nat)
    (shuffle : Bool) :
    (∀ d : Draws, ∃ item ∈ Edit.numbered (min k old.length) batch,
      let list := (Edit.splice d old batch { insertAt := k, shuffle }).1
      list[min k (list.length - 1)]? = some item) ↔ shuffle = false ∨ old.length ≤ k := by
  constructor
  · intro hnew
    by_contra hmixed
    obtain ⟨hshuffle, hk⟩ := not_or.1 hmixed
    obtain ⟨d, hlast⟩ := Draws.exists_last_first (batch.length + (old.length - k - 1))
    rw [show batch.length + (old.length - k - 1) + 1 = batch.length + (old.length - k) by omega]
      at hlast
    obtain ⟨item, hitem, hfirst⟩ := hnew d
    obtain ⟨other, hother, hiff, -⟩ := spliced_first_new_iff old hbatch k d shuffle
    cases hfirst.symm.trans hother
    rcases hiff.1 hitem with hplain | hbehind | hplace
    · exact hshuffle hplain
    · exact hk hbehind
    · omega
  · intro hplain d
    obtain ⟨item, hitem, hiff, -⟩ := spliced_first_new_iff old hbatch k d shuffle
    exact ⟨item, hiff.2 (hplain.imp_right .inl), hitem⟩

/-! ## Requests -/

/-- Whether a command that ends so comes to play the item at a position of this list. -/
def BeginsAt (S : Setting) (queueId : String) (list : List QueueItem) (index : Nat)
    (result : Except Failure Unit) (h₁ : Hub) : Prop :=
  ∃ h history e, h.entry? queueId = some e ∧ e.items = list ∧
    (Command.playIndex queueId (.index index) 0 false false).Unfolds S h history result h₁

/-- Whether a command that ends so puts a batch at a place `k` of an old list, mixed with what is
behind it or not, and then comes to play this item: the one that is there, or the last one if the
place lies behind the list. The numbers tell new items from old ones. -/
structure Begins (S : Setting) (queueId : String) (old : List QueueItem) (k : Nat) (mixed : Bool)
    (batch : List QueueItem) (item : QueueItem) (result : Except Failure Unit) (h₁ : Hub) :
    Prop where
  plays : ∃ d : Draws,
    let list := (Edit.splice d old batch { insertAt := k, shuffle := mixed }).1
    let index := min k (list.length - 1)
    BeginsAt S queueId list index result h₁ ∧ list[index]? = some item ∧
      (item ∈ Edit.numbered (min k old.length) batch ↔ mixed = false ∨ old.length ≤ k ∨
        d.firstPlace (batch.length + (old.length - k)) < batch.length)
  new_or_old : item ∈ Edit.numbered (min k old.length) batch ∨
    item ∈ Edit.renumbered (k + batch.length) (old.drop k)

/-- A batch that is to be played is put into the list, and the item at its place is played. -/
theorem Command.Unfolds.begins {S : Setting} {queueId : String} (hS : S.Spares queueId)
    {h h₁ : Hub} {e : Entry} (he : h.entry? queueId = some e) {old batch : List QueueItem} {k : Nat}
    (hitems : e.items = old) (hk : insertion e.queue old = k) (hbatch : batch ≠ [])
    {history : List Happening} {result : Except Failure Unit}
    (hunfolds : (place queueId .play batch false).Unfolds S h history result h₁) :
    ∃ item, Begins S queueId old k (e.queue.shuffle && decide (1 < batch.length)) batch item result
      h₁ := by
  subst hitems hk
  obtain ⟨h₂, he₂, hloads⟩ := Unfolds.of_entry hS he hunfolds
  dsimp only at hloads
  rw [insertIndex_eq, Bool.not_false, Bool.and_true] at hloads
  obtain ⟨d, e₃, h₃, _, heq, he₃, hcounts⟩ := Unfolds.of_load hS he₂ hloads
  obtain ⟨h₄, he₄, hplays⟩ := Unfolds.of_items hS he₃ hcounts
  cases heq
  obtain ⟨item, hitem, hiff, hold⟩ := spliced_first_new_iff e.items hbatch
    (insertion e.queue e.items) d (e.queue.shuffle && decide (1 < batch.length))
  exact ⟨item, ⟨d, ⟨h₄, _, _, he₄, rfl, hplays⟩, hitem, hiff⟩, hold⟩

/-- What a request to play starts, if its player is there and announces nothing: the item that it
comes to play is one of the new ones just if these are not mixed with the old items behind them
(they are if the queue is shuffled and they are several), or nothing is behind them, or the place
that was drawn for the first item is one of theirs. Else it is an old item that stood behind the
place of insertion. -/
theorem request_starts_new_iff {S : Setting} {queueId : String} (hspared : S.Spares queueId)
    (hopen : S.Open)
    (hheard : ∀ o, S.sees o → ∃ r, o.report? queueId = some r ∧ r.announcementInProgress = false)
    {h : Hub} {e : Entry} (he : h.entry? queueId = some e) (refs : List MediaRef)
    (start : Option String) :
    let old := if e.queue.isFinished e.items.length then [] else e.items
    let k := insertion e.queue old
    let request := Command.playMedia queueId refs (some .play) false start
    (∃ history result h₁, request.Unfolds S h history result h₁) ∧
      ∀ history result h₁, request.Unfolds S h history result h₁ →
        ∃ h₀ media h₂, h₀.entry? queueId = some (e.readied .play) ∧
          Collects S queueId start refs h₀ media h₂ ∧
          (media.filter (·.available) ≠ [] → ∃ batch item,
            batch.map (·.uri) = (media.filter (·.available)).map (·.uri) ∧
            Begins S queueId old k (e.queue.shuffle && decide (1 < batch.length)) batch item result
              h₁) := by
  intro old k request
  refine ⟨Program.exists_unfolds hopen _ h, fun history result h₁ hunfolds => ?_⟩
  obtain ⟨h₀, rest, he₀, hfulfils⟩ := Command.Unfolds.of_playMedia hspared hheard he hunfolds
  obtain ⟨media, h₂, hcollects, hplaces⟩ := Command.Unfolds.of_fulfil hspared he₀ hfulfils
  refine ⟨h₀, media, h₂, he₀, hcollects, fun hsome => ?_⟩
  obtain ⟨batch, _, _, h₃, last, hbatch, huris, he₃, hplacing⟩ := hplaces hsome
  obtain ⟨hitems, hk, hshuffle, -⟩ := e.readied_keeps (show EnqueueOption.play ≠ .replace by decide)
  obtain ⟨item, hbegins⟩ := Command.Unfolds.begins hspared he₃ hitems hk hbatch hplacing
  dsimp only at hbegins
  rw [hshuffle] at hbegins
  exact ⟨batch, item, huris, hbegins⟩

/-- Three tracks play and are shuffled. -/
def House.crowd : List (Outside × Move) :=
  (world, .register den) ::
    (request (.playMedia "den" (["a", "b", "c"].map fun name => .item (track name)) (some .play)
        false none) ++
      request (.setShuffle "den" true))

/-- Two tracks are put behind the first of three, in any order with the other two, and the item that
is played then is one of them just if it was drawn from the first two places of four. -/
theorem two_tracks_start_in_crowd :
    let h := (House.session.run House.crowd).hub
    let S := House.setting House.answers
    let refs := ["d", "e"].map fun name => .item (House.track name)
    let request := Command.playMedia "den" refs (some .play) false none
    ∃ e, h.entry? "den" = some e ∧ e.queue.shuffle = true ∧ e.items.length = 3 ∧
      (∃ history result h₁, request.Unfolds S h history result h₁) ∧
      ∀ history result h₁, request.Unfolds S h history result h₁ →
        ∃ h₀ media h₂, h₀.entry? "den" = some (e.readied .play) ∧
          Collects S "den" none refs h₀ media h₂ ∧
          (media.filter (·.available) ≠ [] → ∃ batch item,
            batch.map (·.uri) = (media.filter (·.available)).map (·.uri) ∧
            Begins S "den" e.items 1 (decide (1 < batch.length)) batch item result h₁) := by
  intro h S refs request
  have hentry : (h.entry? "den").any (fun e =>
      decide (e.queue.isFinished e.items.length = false) &&
        decide (insertion e.queue e.items = 1) && decide (e.items.length = 3) &&
        decide (e.queue.shuffle = true)) := by
    decide +kernel
  obtain ⟨e, he, hlooks⟩ := (Option.any_eq_true _ _).1 hentry
  simp only [Bool.and_eq_true, decide_eq_true_eq] at hlooks
  obtain ⟨⟨⟨hgoes, hplace⟩, hlength⟩, hshuffled⟩ := hlooks
  have hold : (if e.queue.isFinished e.items.length then [] else e.items) = e.items :=
    if_neg (by rw [hgoes]; exact Bool.false_ne_true)
  have hstarts := request_starts_new_iff (House.spares_setting House.answers)
    (House.open_setting _) (by rintro o rfl; exact ⟨House.den, rfl, rfl⟩) he refs none
  dsimp only at hstarts
  rw [hold, hplace, hshuffled] at hstarts
  exact ⟨e, he, hshuffled, hlength, hstarts⟩

/-- Two tracks are to be played behind the first of three that are shuffled. They come into the list
as the fourth and the fifth item, but the stream that is asked for is that of the second one, which
was there before, and this is played. -/
theorem old_track_starts_in_crowd :
    let h := (House.session.run House.crowd).hub
    let S := House.setting House.answers
    let refs := ["d", "e"].map fun name => .item (House.track name)
    let request := Command.playMedia "den" refs (some .play) false none
    (h.entry? "den").any (fun e => decide (ids e.items = ["qi1", "qi2", "qi3"])) = true ∧
      ∃ history h₁, request.Unfolds S h history (.ok ()) h₁ ∧
        ids (h₁.items "den") = ["qi1", "qi2", "qi3", "qi5", "qi4"] ∧
        ((asked history).filterMap fun
          | ⟨.streamDetails item _, _⟩ => some item.id
          | _ => none) = ["qi2"] ∧
        (h₁.queue? "den").any (fun q =>
          decide (q.currentIndex = some 1 ∧ q.currentItem.map (·.id) = some "qi2")) = true := by
  intro h S refs request
  refine ⟨by decide +kernel, ?_⟩
  have hunfolds := House.unfolds_setting House.answers request.run h
  have hended : (request.run.alone House.world House.answers h).1 = .ok () := by
    decide +kernel
  rw [hended] at hunfolds
  exact ⟨_, _, hunfolds, by decide +kernel, by decide +kernel, by decide +kernel⟩

end Jukebox
