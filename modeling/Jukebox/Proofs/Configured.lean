import Jukebox.Proofs.Publishing

/-!
# The configuration of a hub

A hub keeps the configuration that it was made with: no act changes it (`Hub.config_apply`).
-/

namespace Jukebox

namespace Hub

variable (h : Hub) (o : Outside) (queueId : String)

@[simp] theorem config_modifyEntry (f : Entry → Entry) :
    (h.modifyEntry queueId f).config = h.config := by
  unfold modifyEntry
  cases h.entry? queueId <;> rfl

@[simp] theorem config_persist (itemsChanged : Bool) :
    (h.persist o queueId itemsChanged).config = h.config := by
  unfold persist
  cases h.entry? queueId <;> rfl

@[simp] theorem config_signal (itemsChanged : Bool) :
    (h.signal o queueId itemsChanged).config = h.config := by
  unfold signal
  cases h.queue? queueId with
  | none => rfl
  | some q => cases itemsChanged <;> exact config_persist _ o queueId _

@[simp] theorem config_putItems (q : Queue) (items : List QueueItem) :
    (h.putItems queueId q items).config = h.config :=
  h.config_modifyEntry queueId _

/-- Edits and reports keep the configuration. -/
theorem kept_config :
    Kept o queueId fun h' => h'.config = h.config ∧ PublishesOnly queueId h h' where
  named hs he := hs.2.named _ he
  congr hs hentry hevents hstore hconfig :=
    ⟨hconfig.trans hs.1, hs.2.congr hentry hevents hstore⟩
  modifyEntry hs hf :=
    ⟨(config_modifyEntry _ _ _).trans hs.1, (PublishesOnly.kept o).modifyEntry hs.2 hf⟩
  replace items hs hq :=
    ⟨by simp [hs.1], (PublishesOnly.kept o).replace items hs.2 hq⟩
  publish hs he hother := ⟨hs.1, (PublishesOnly.kept o).publish hs.2 he hother⟩
  signal itemsChanged hs :=
    ⟨(config_signal _ o _ _).trans hs.1, (PublishesOnly.kept o).signal itemsChanged hs.2⟩

/-- No act changes the configuration. -/
theorem config_apply {h : Hub} (hnamed : h.Named) (a : Act) :
    (a.apply o h).config = h.config := by
  have hkept := fun queueId => (h.kept_config o queueId).apply (a := a)
    ⟨rfl, hnamed.publishesOnly queueId⟩
  cases a with
  | updateItem queueId itemId change =>
    show (h.updateItem queueId itemId change.apply).2.config = h.config
    unfold updateItem
    repeat' split
    all_goals simp
  | startOver queueId =>
    show (h.startOver queueId).config = h.config
    unfold startOver
    repeat' split
    all_goals simp
  | register r =>
    have hput : (h.putEntry r.playerId (h.newEntry o r)).config = h.config ∧
        PublishesOnly r.playerId h (h.putEntry r.playerId (h.newEntry o r)) :=
      ⟨rfl, (hnamed.publishesOnly r.playerId).putEntry (id_newEntry o r)⟩
    exact ((h.kept_config o r.playerId).onReport hput rfl).1
  | recordContainer | redraw | count | takeTurn | cancelAll | begin | remove => rfl
  | _ =>
    exact (hkept _ rfl (by simp) (by simp) (by simp) (by simp)).1

end Hub

end Jukebox
