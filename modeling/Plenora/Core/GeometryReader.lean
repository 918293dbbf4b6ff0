import Plenora.Core.GeometryValue

/-!
# The geometry reader on known bytes

Where the bytes ahead of the reader are known, each of its steps succeeds under a
condition on them, whatever follows; with the budgets wide open no step fails on
them.

    Ahead r (raw ++ rest) credit → Decides (r.take raw.length) True …       (Ahead.take)
-/

namespace Plenora.Core.GeometryValue

open Plenora.Lib

/-- The largest budget, which no value in memory exhausts. -/
def openBudget : Nat := 2 ^ 64 - 1

/-- The bytes ahead of the reader; every component but `credit` of them is paid for by a byte
read. -/
structure Ahead (r : Reader) (rest : List UInt8) (credit : Nat) : Prop where
  ahead : r.bytes.drop r.offset = rest
  within : r.offset ≤ r.bytes.length
  short : r.bytes.length < 2 ^ 63
  paid : r.components ≤ r.offset + credit
  credit : credit ≤ 2 ^ 33
  maxComponents : r.maxComponents = openBudget
  maxDepth : r.maxDepth = openBudget

namespace Ahead

variable {r : Reader} {rest raw : List UInt8} {credit : Nat}

theorem remaining (h : Ahead r rest credit) : r.remaining = rest.length := by
  unfold Reader.remaining
  rw [← h.ahead, List.length_drop]

theorem length_le (h : Ahead r rest credit) : rest.length < 2 ^ 63 := by
  have hlength := congrArg List.length h.ahead
  rw [List.length_drop] at hlength
  have := h.short
  omega

/-- Bytes read pay for components. -/
theorem take {paid : Nat} (h : Ahead r (raw ++ rest) (credit + paid)) (hpaid : paid ≤ raw.length) :
    Decides (r.take raw.length) True fun read => read.1 = raw ∧ Ahead read.2 rest credit := by
  have hlength := h.length_le
  have hremaining := h.remaining
  unfold Reader.remaining at hremaining
  rw [List.length_append] at hlength hremaining
  have hwithin := h.within
  have hshort := h.short
  have hstop : (checkedAdd 64 r.offset raw.length).filter (· ≤ r.bytes.length) =
      some (r.offset + raw.length) := by
    rw [Option.filter_eq_some_iff, checkedAdd_eq_some, decide_eq_true_eq]
    omega
  have htake : (r.bytes.drop r.offset).take raw.length = raw := by
    rw [h.ahead, List.take_left]
  have hdrop : r.bytes.drop (r.offset + raw.length) = rest := by
    rw [← List.drop_drop, h.ahead, List.drop_left]
  refine Decides.of_ok (a := (raw, { r with offset := r.offset + raw.length })) ?_ ⟨rfl, ?_⟩
  · unfold Reader.take
    rw [hstop, okOr_some, ok_bind, htake]
  · refine ⟨hdrop, ?_, h.short, ?_, ?_, h.maxComponents, h.maxDepth⟩
    · show r.offset + raw.length ≤ r.bytes.length
      omega
    · show r.components ≤ r.offset + raw.length + credit
      have := h.paid
      omega
    · have := h.credit
      omega

theorem addComponents {amount : Nat} (h : Ahead r rest credit)
    (hcredit : credit + amount ≤ 2 ^ 33) :
    Decides (r.addComponents amount) True fun r' => Ahead r' rest (credit + amount) := by
  have hwithin := h.within
  have hshort := h.short
  have hpaid := h.paid
  have hadd : checkedAdd 64 r.components amount = some (r.components + amount) := by
    rw [checkedAdd_eq_some]
    omega
  refine Decides.of_ok (a := { r with components := r.components + amount }) ?_ ?_
  · unfold Reader.addComponents
    have hopen : ¬ r.components + amount > r.maxComponents := by
      rw [h.maxComponents]
      unfold openBudget
      omega
    rw [hadd, okOr_some, ok_bind, failIf_neg hopen]
    rfl
  · refine ⟨h.ahead, h.within, h.short, ?_, hcredit, h.maxComponents, h.maxDepth⟩
    show r.components + amount ≤ r.offset + (credit + amount)
    omega

theorem u32 {w : Nat} {paid : Nat} (hw : w < 2 ^ 32)
    (h : Ahead r (leBytes 4 w ++ rest) (credit + paid)) (hpaid : paid ≤ 4) :
    Decides (r.u32 true) True fun read => read.1 = UInt32.ofNat w ∧ Ahead read.2 rest credit := by
  have hlength := length_leBytes 4 w
  have htake := h.take (by rw [hlength]; exact hpaid)
  rw [hlength] at htake
  refine htake.andThen fun read hread => ?_
  obtain ⟨hraw, hafter⟩ := hread
  refine decides_ok ⟨?_, hafter⟩
  rw [hraw]
  show UInt32.ofNat (natOfLe (leBytes 4 w)) = _
  rw [natOfLe_leBytes, Nat.mod_eq_of_lt (Nat.lt_of_lt_of_eq hw (by decide))]

/-- So many points, in bytes that are ahead. -/
theorem points {count width : Nat} (h : Ahead r (raw ++ rest) credit)
    (hraw : raw.length = count * width) (hwidth : 0 < width) (hcredit : credit + count ≤ 2 ^ 33) :
    Decides (r.points count width) True fun read => read.1 = raw ∧ Ahead read.2 rest credit := by
  have hlength := h.length_le
  rw [List.length_append] at hlength
  have hbytes : (checkedMul 64 count width).filter (· ≤ r.remaining) = some raw.length := by
    rw [Option.filter_eq_some_iff, checkedMul_eq_some, h.remaining, decide_eq_true_eq,
      List.length_append, ← hraw]
    omega
  have hcount : count ≤ raw.length := by
    rw [hraw]
    exact Nat.le_mul_of_pos_right count hwidth
  unfold Reader.points
  rw [hbytes, okOr_some, ok_bind]
  exact (h.addComponents hcredit).andThen fun r' hr' => hr'.take hcount

/-- A ring as it is written: the number of its points, then the points. -/
def ringBlock (width : Nat) (raw : List UInt8) : List UInt8 := leBytes 4 (raw.length / width) ++ raw

/-- At least four points of `width` bytes, in a number that its word holds. -/
structure RingBytes (width : Nat) (raw : List UInt8) : Prop where
  whole : raw.length = raw.length / width * width
  four : 4 ≤ raw.length / width
  word : raw.length / width < 2 ^ 32

/-- The first and the last point have the same bytes. -/
def SameEnds (width : Nat) (raw : List UInt8) : Prop :=
  raw.take width = raw.drop (raw.length - width)

theorem ring {width : Nat} (hwidth : 0 < width) (hring : RingBytes width raw)
    (h : Ahead r (ringBlock width raw ++ rest) (credit + 1)) (hcredit : credit ≤ 2 ^ 32) :
    Decides (r.ring true width) (SameEnds width raw) fun r' => Ahead r' rest credit := by
  have hword := hring.word
  have hcount : (UInt32.ofNat (raw.length / width)).toNat = raw.length / width := by
    rw [UInt32.toNat_ofNat']
    exact Nat.mod_eq_of_lt hword
  unfold ringBlock at h
  rw [List.append_assoc] at h
  unfold Reader.ring
  refine (h.u32 hword (by decide)).andThen fun read hread => ?_
  obtain ⟨count, r'⟩ := read
  obtain ⟨rfl, hafter⟩ := hread
  have hpoints := @points _ _ _ _ (UInt32.ofNat (raw.length / width)).toNat _ hafter
    (by rw [hcount]; exact hring.whole) hwidth (by rw [hcount]; omega)
  refine hpoints.andThen fun read hread => ?_
  obtain ⟨read, r''⟩ := read
  obtain ⟨rfl, hlast⟩ := hread
  have hfour : ¬ UInt32.ofNat (read.length / width) < 4 := by
    rw [UInt32.not_lt, UInt32.le_iff_toNat_le, hcount]
    exact hring.four
  refine Decides.congr (decides_failIf.bind fun _ _ => decides_ok hlast) ?_
  unfold SameEnds
  constructor
  · intro hsame
    refine ⟨?_, trivial⟩
    rintro (hless | hdiffer)
    · exact hfour hless
    · exact hdiffer hsame
  · rintro ⟨hclosed, -⟩
    by_contra hdiffer
    exact hclosed (.inr hdiffer)

/-- Rings one after the other, each paid for by its count. -/
theorem rings {width : Nat} (hwidth : 0 < width) {raws : List (List UInt8)}
    (hraws : ∀ raw ∈ raws, RingBytes width raw)
    (h : Ahead r (raws.flatMap (ringBlock width) ++ rest) (credit + raws.length))
    (hcredit : credit + raws.length ≤ 2 ^ 32) :
    Decides (Reader.rings true width raws.length r) (∀ raw ∈ raws, SameEnds width raw)
      fun r' => Ahead r' rest credit := by
  induction raws generalizing r with
  | nil =>
    refine Decides.congr (decides_ok h) ⟨fun _ => trivial, fun _ => ?_⟩
    exact fun _ hraw => (by cases hraw)
  | cons raw raws ih =>
    rw [List.flatMap_cons, List.append_assoc] at h
    rw [List.length_cons] at hcredit
    rw [List.length_cons, Reader.rings]
    have hfirst := @ring _ _ _ (credit + raws.length) _ hwidth (hraws raw List.mem_cons_self) h (by omega)
    refine Decides.congr (hfirst.bind fun r' hr' => ?_) List.forall_mem_cons
    exact ih (fun raw hraw => hraws raw (List.mem_cons_of_mem _ hraw)) hr' (by omega)

/-- A count whose items fit in the bytes ahead. -/
theorem count {items size : Nat} {paid : Nat} (hitems : items < 2 ^ 32)
    (h : Ahead r (leBytes 4 items ++ rest) (credit + paid)) (hpaid : paid ≤ 4)
    (hsize : items * size ≤ rest.length) :
    Decides (r.count true size) True fun read => read.1 = items ∧ Ahead read.2 rest credit := by
  have hword : (UInt32.ofNat items).toNat = items := by
    rw [UInt32.toNat_ofNat']
    exact Nat.mod_eq_of_lt hitems
  unfold Reader.count
  refine (h.u32 hitems hpaid).andThen fun read hread => ?_
  obtain ⟨w, r'⟩ := read
  obtain ⟨rfl, hafter⟩ := hread
  have hlength := hafter.length_le
  have hfits : (checkedMul 64 (UInt32.ofNat items).toNat size).filter (· ≤ r'.remaining) =
      some (items * size) := by
    rw [Option.filter_eq_some_iff, checkedMul_eq_some, hafter.remaining, decide_eq_true_eq, hword]
    omega
  show Decides (okOr ((checkedMul 64 (UInt32.ofNat items).toNat size).filter (· ≤ r'.remaining)) _
    >>= _) _ _
  rw [hfits, okOr_some, ok_bind]
  exact decides_ok ⟨hword, hafter⟩

/-- A geometry is entered as its header is read. -/
theorem enter {depth : Nat} {outer : Bool} {c : Prop} {P : Header → Prop}
    (hdepth : depth ≤ maxNesting)
    (hheader : ∀ r, Ahead r (raw ++ rest) 1 →
      Decides (r.header outer) c fun read => P read.1 ∧ Ahead read.2 rest 0)
    (h : Ahead r (raw ++ rest) 0) :
    Decides (r.enter depth outer) c fun read => P read.1 ∧ Ahead read.2 rest 0 := by
  have hlevels : ¬ depth > maxNesting := by omega
  have hbudget : ¬ depth ≥ r.maxDepth := by
    rw [h.maxDepth]
    unfold openBudget
    unfold maxNesting at hdepth
    omega
  have hobserved : Ahead { r with observedDepth := max r.observedDepth (depth + 1) }
      (raw ++ rest) 0 :=
    ⟨h.ahead, h.within, h.short, h.paid, h.credit, h.maxComponents, h.maxDepth⟩
  unfold Reader.enter
  rw [failIf_neg hlevels, ok_bind, failIf_neg hbudget, ok_bind]
  refine (hobserved.addComponents (by decide)).andThen fun r' hr' => ?_
  refine Decides.congr ((hheader r' hr').bind fun read hread => ?_) (and_iff_left trivial).symm
  obtain ⟨header, r''⟩ := read
  obtain ⟨hheader, hafter⟩ := hread
  exact decides_ok ⟨hheader, hafter.ahead, hafter.within, hafter.short, hafter.paid, hafter.credit,
    hafter.maxComponents, hafter.maxDepth⟩

/-- A member that its container admits. -/
structure Admitted (container member : Header) : Prop where
  type : (admittedMembers container.baseType).all (·.contains member.baseType) = true
  dimensions : (member.hasZ, member.hasM) = (container.hasZ, container.hasM)

theorem admitMember (r : Reader) {container member : Header} (h : Admitted container member) :
    r.admitMember container member = .ok () := by
  have htype : ¬ (admittedMembers container.baseType).any (¬ ·.contains member.baseType) = true := by
    have hall := h.type
    cases hadmitted : admittedMembers container.baseType with
    | none => simp
    | some kinds =>
      rw [hadmitted] at hall
      simpa using hall
  unfold Reader.admitMember
  rw [failIf_neg htype, ok_bind]
  exact failIf_neg fun hne => hne h.dimensions

/-- The members of a container, each decided by its own condition. -/
theorem members {α : Type} {member : Reader → Result (Header × Reader)} {container : Header}
    {bytes : α → List UInt8} {c : α → Prop} {as : List α}
    (hmember : ∀ a ∈ as, ∀ r rest, Ahead r (bytes a ++ rest) credit →
      Decides (member r) (c a) fun read => Admitted container read.1 ∧ Ahead read.2 rest credit)
    (h : Ahead r (as.flatMap bytes ++ rest) credit) :
    Decides (Reader.members member container as.length r) (∀ a ∈ as, c a)
      fun r' => Ahead r' rest credit := by
  induction as generalizing r with
  | nil =>
    refine Decides.congr (decides_ok h) ⟨fun _ => trivial, fun _ => ?_⟩
    exact fun _ ha => (by cases ha)
  | cons a as ih =>
    rw [List.flatMap_cons, List.append_assoc] at h
    rw [List.length_cons, Reader.members]
    have hfirst := hmember a List.mem_cons_self r _ h
    refine Decides.congr (hfirst.bind fun read hread => ?_) List.forall_mem_cons
    obtain ⟨header, r'⟩ := read
    obtain ⟨hadmitted, hafter⟩ := hread
    show Decides (r'.admitMember container header >>= _) _ _
    rw [admitMember r' hadmitted, ok_bind]
    exact ih (fun a ha => hmember a (List.mem_cons_of_mem _ ha)) hafter

end Ahead

end Plenora.Core.GeometryValue
