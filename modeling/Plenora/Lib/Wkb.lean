import Plenora.Lib.Machine

/-!
# Well-known binary

A geometry is its nodes in preorder, each with its header and either its
positions or the number of its members; the counts fix the nesting.  `read`
reads the ISO and the extended form, in either byte order.

    Whole bytes nodes → read bytes = some nodes                             (read_of_whole)
-/

namespace Plenora.Lib.Wkb

/-! ## Data model -/

inductive Kind where
  | point | lineString | polygon | multiPoint | multiLineString | multiPolygon
  | geometryCollection
  deriving DecidableEq, Repr

def Kind.code : Kind → UInt32
  | .point => 1
  | .lineString => 2
  | .polygon => 3
  | .multiPoint => 4
  | .multiLineString => 5
  | .multiPolygon => 6
  | .geometryCollection => 7

def kinds : List Kind :=
  [.point, .lineString, .polygon, .multiPoint, .multiLineString, .multiPolygon,
    .geometryCollection]

def Kind.ofCode (code : UInt32) : Option Kind := kinds.find? (·.code = code)

structure Head where
  kind : Kind
  hasZ : Bool
  hasM : Bool
  srid : Option UInt32
  deriving DecidableEq, Repr

/-- The numbers of a position. -/
def Head.width (head : Head) : Nat := 2 + head.hasZ.toNat + head.hasM.toNat

inductive Content (α : Type) where
  | points (points : List (List α))
  | rings (rings : List (List (List α)))
  | members (count : Nat)
  deriving DecidableEq, Repr

structure Node (α : Type) where
  head : Head
  content : Content α
  deriving DecidableEq, Repr

def Content.map {α β : Type} (f : α → β) : Content α → Content β
  | .points ps => .points (ps.map (·.map f))
  | .rings rs => .rings (rs.map (·.map (·.map f)))
  | .members n => .members n

def Node.map {α β : Type} (f : α → β) (node : Node α) : Node β := ⟨node.head, node.content.map f⟩

def Node.members {α : Type} (node : Node α) : Nat :=
  match node.content with
  | .members count => count
  | _ => 0

/-! ## Reading -/

def take (n : Nat) (bytes : List UInt8) : Option (List UInt8 × List UInt8) :=
  if n ≤ bytes.length then some (bytes.take n, bytes.drop n) else none

def word (littleEndian : Bool) (bytes : List UInt8) : Option (UInt32 × List UInt8) := do
  let (raw, rest) ← take 4 bytes
  some (wordOfBytes littleEndian raw, rest)

def number (littleEndian : Bool) (bytes : List UInt8) : Option (UInt64 × List UInt8) := do
  let (raw, rest) ← take 8 bytes
  some (UInt64.ofNat (natOfLe (if littleEndian then raw else raw.reverse)), rest)

/-- `n` items, one after the other. -/
def items {β : Type} (item : List UInt8 → Option (β × List UInt8)) :
    Nat → List UInt8 → Option (List β × List UInt8)
  | 0, bytes => some ([], bytes)
  | n + 1, bytes => do
    let (first, rest) ← item bytes
    let (more, rest) ← items item n rest
    some (first :: more, rest)

/-- A count, then so many items. -/
def counted {β : Type} (littleEndian : Bool) (item : List UInt8 → Option (β × List UInt8))
    (bytes : List UInt8) : Option (List β × List UInt8) := do
  let (count, rest) ← word littleEndian bytes
  items item count.toNat rest

/-- The kind, the dimensions and whether an SRID follows, from a type code of either form. -/
def ofCode (code : UInt32) : Option (Kind × Bool × Bool × Bool) := do
  let base := code &&& 0x1fffffff
  let kind ← Kind.ofCode (base % 1000)
  let thousands := base / 1000
  if thousands = 0 then
    some (kind, code &&& 0x80000000 ≠ 0, code &&& 0x40000000 ≠ 0, code &&& 0x20000000 ≠ 0)
  else if thousands ≤ 3 ∧ code = base then
    some (kind, thousands = 1 || thousands = 3, 2 ≤ thousands, false)
  else none

def order : List UInt8 → Option (Bool × List UInt8)
  | 0 :: rest => some (false, rest)
  | 1 :: rest => some (true, rest)
  | _ => none

def readHead (bytes : List UInt8) : Option (Bool × Head × List UInt8) := do
  let (littleEndian, rest) ← order bytes
  let (code, rest) ← word littleEndian rest
  let (kind, hasZ, hasM, embedded) ← ofCode code
  if embedded then do
    let (srid, rest) ← word littleEndian rest
    some (littleEndian, ⟨kind, hasZ, hasM, some srid⟩, rest)
  else some (littleEndian, ⟨kind, hasZ, hasM, none⟩, rest)

def readContent (littleEndian : Bool) (head : Head) (bytes : List UInt8) :
    Option (Content UInt64 × List UInt8) :=
  let position := items (number littleEndian) head.width
  match head.kind with
  | .point => (items position 1 bytes).map fun (points, rest) => (.points points, rest)
  | .lineString => (counted littleEndian position bytes).map fun (points, rest) =>
    (.points points, rest)
  | .polygon => (counted littleEndian (counted littleEndian position) bytes).map
    fun (rings, rest) => (.rings rings, rest)
  | _ => (word littleEndian bytes).map fun (count, rest) => (.members count.toNat, rest)

def readNode (bytes : List UInt8) : Option (Node UInt64 × List UInt8) := do
  let (littleEndian, head, rest) ← readHead bytes
  let (content, rest) ← readContent littleEndian head rest
  some (⟨head, content⟩, rest)

/-- The nodes of the geometries still pending; a node takes at least a byte. -/
def readFrom : Nat → Nat → List UInt8 → Option (List (Node UInt64) × List UInt8)
  | _, 0, bytes => some ([], bytes)
  | 0, _ + 1, _ => none
  | fuel + 1, pending + 1, bytes => do
    let (node, rest) ← readNode bytes
    let (nodes, rest) ← readFrom fuel (pending + node.members) rest
    some (node :: nodes, rest)

/-- The nodes of a value that is one geometry and nothing else. -/
def read (bytes : List UInt8) : Option (List (Node UInt64)) :=
  match readFrom (bytes.length + 1) 1 bytes with
  | some (nodes, []) => some nodes
  | _ => none

/-! ## What is written is read -/

/-- `write` is read by `item`, whatever follows. -/
def ReadBack {β : Type} (item : List UInt8 → Option (β × List UInt8)) (write : List UInt8)
    (b : β) : Prop :=
  ∀ rest, item (write ++ rest) = some (b, rest)

theorem take_append (raw rest : List UInt8) : take raw.length (raw ++ rest) = some (raw, rest) := by
  unfold take
  rw [if_pos (by simp), List.take_left, List.drop_left]

theorem readBack_word (w : UInt32) : ReadBack (word true) (leBytes 4 w.toNat) w := by
  intro rest
  have htake := take_append (leBytes 4 w.toNat) rest
  rw [length_leBytes] at htake
  have hlt : w.toNat < 256 ^ 4 := w.toNat_lt
  unfold word
  rw [htake]
  show some (UInt32.ofNat (natOfLe (leBytes 4 w.toNat)), rest) = _
  rw [natOfLe_leBytes, Nat.mod_eq_of_lt hlt, UInt32.ofNat_toNat]

theorem readBack_number (bits : UInt64) : ReadBack (number true) (leBytes 8 bits.toNat) bits := by
  intro rest
  have htake := take_append (leBytes 8 bits.toNat) rest
  rw [length_leBytes] at htake
  have hlt : bits.toNat < 256 ^ 8 := bits.toNat_lt
  unfold number
  rw [htake]
  show some (UInt64.ofNat (natOfLe (leBytes 8 bits.toNat)), rest) = _
  rw [natOfLe_leBytes, Nat.mod_eq_of_lt hlt, UInt64.ofNat_toNat]

theorem readBack_items {β : Type} {item : List UInt8 → Option (β × List UInt8)}
    {write : β → List UInt8} {bs : List β} (h : ∀ b ∈ bs, ReadBack item (write b) b) :
    ReadBack (items item bs.length) (bs.flatMap write) bs := by
  intro rest
  induction bs with
  | nil => rfl
  | cons b bs ih =>
    have hfirst := h b List.mem_cons_self ((bs.flatMap write) ++ rest)
    have hmore := ih fun b hb => h b (List.mem_cons_of_mem _ hb)
    rw [List.length_cons, items, List.flatMap_cons, List.append_assoc, hfirst]
    show (items item bs.length (bs.flatMap write ++ rest) >>= _) = _
    rw [hmore]
    rfl

theorem readBack_counted {β : Type} {item : List UInt8 → Option (β × List UInt8)}
    {write : β → List UInt8} {bs : List β} (hlength : bs.length < 2 ^ 32)
    (h : ∀ b ∈ bs, ReadBack item (write b) b) :
    ReadBack (counted true item) (leBytes 4 bs.length ++ bs.flatMap write) bs := by
  intro rest
  have hcount : (UInt32.ofNat bs.length).toNat = bs.length := by
    rw [UInt32.toNat_ofNat']
    exact Nat.mod_eq_of_lt hlength
  have hword := readBack_word (UInt32.ofNat bs.length) (bs.flatMap write ++ rest)
  rw [hcount] at hword
  unfold counted
  rw [List.append_assoc, hword]
  show items item (UInt32.ofNat bs.length).toNat _ = _
  rw [hcount]
  exact readBack_items h rest

/-! ## Whole geometries -/

/-- The nodes of `pending` geometries, and what follows them. -/
inductive Reads : Nat → List UInt8 → List (Node UInt64) → List UInt8 → Prop
  | done (bytes : List UInt8) : Reads 0 bytes [] bytes
  | node {pending : Nat} {bytes rest tail : List UInt8} {node : Node UInt64}
      {nodes : List (Node UInt64)} (hnode : readNode bytes = some (node, rest))
      (hnodes : Reads (pending + node.members) rest nodes tail) :
      Reads (pending + 1) bytes (node :: nodes) tail

theorem readFrom_of_reads {pending : Nat} {bytes tail : List UInt8} {nodes : List (Node UInt64)}
    (h : Reads pending bytes nodes tail) :
    ∀ fuel, nodes.length ≤ fuel → readFrom fuel pending bytes = some (nodes, tail) := by
  induction h with
  | done bytes => exact fun fuel _ => by cases fuel <;> rfl
  | node hnode _ ih =>
    intro fuel hfuel
    cases fuel with
    | zero => exact absurd hfuel (Nat.not_succ_le_zero _)
    | succ fuel =>
      rw [readFrom, hnode]
      show (readFrom fuel _ _ >>= _) = _
      rw [ih fuel (Nat.le_of_succ_le_succ hfuel)]
      rfl

/-- The bytes of `count` geometries with these nodes, whatever follows. -/
def WholeAll (count : Nat) (bytes : List UInt8) (nodes : List (Node UInt64)) : Prop :=
  nodes.length ≤ bytes.length ∧ ∀ pending rest out tail,
    Reads pending rest out tail → Reads (pending + count) (bytes ++ rest) (nodes ++ out) tail

/-- The bytes of one geometry. -/
def Whole (bytes : List UInt8) (nodes : List (Node UInt64)) : Prop := WholeAll 1 bytes nodes

theorem wholeAll_nil : WholeAll 0 [] [] := ⟨Nat.le_refl _, fun _ _ _ _ h => h⟩

theorem Whole.cons {count : Nat} {bytes more : List UInt8} {nodes others : List (Node UInt64)}
    (h : Whole bytes nodes) (hmore : WholeAll count more others) :
    WholeAll (count + 1) (bytes ++ more) (nodes ++ others) := by
  refine ⟨?_, fun pending rest out tail hout => ?_⟩
  · rw [List.length_append, List.length_append]
    exact Nat.add_le_add h.1 hmore.1
  · rw [List.append_assoc, List.append_assoc]
    exact h.2 (pending + count) _ _ _ (hmore.2 pending rest out tail hout)

theorem wholeAll_flatMap {α : Type} {write : α → List UInt8} {nodes : α → List (Node UInt64)}
    {as : List α} (h : ∀ a ∈ as, Whole (write a) (nodes a)) :
    WholeAll as.length (as.flatMap write) (as.flatMap nodes) := by
  induction as with
  | nil => exact wholeAll_nil
  | cons a as ih =>
    rw [List.flatMap_cons, List.flatMap_cons]
    exact (h a List.mem_cons_self).cons (ih fun b hb => h b (List.mem_cons_of_mem _ hb))

/-- A node that is read back, then its members. -/
theorem whole_node {bytes members : List UInt8} {node : Node UInt64} {others : List (Node UInt64)}
    (hne : bytes ≠ []) (hnode : ReadBack readNode bytes node)
    (hmembers : WholeAll node.members members others) :
    Whole (bytes ++ members) (node :: others) := by
  refine ⟨?_, fun pending rest out tail hout => ?_⟩
  · rw [List.length_append, List.length_cons]
    have := List.length_pos_of_ne_nil hne
    have := hmembers.1
    omega
  · rw [List.append_assoc]
    exact .node (hnode _) (hmembers.2 pending rest out tail hout)

/-- **The bytes of one geometry are read as its nodes.** -/
theorem read_of_whole {bytes : List UInt8} {nodes : List (Node UInt64)} (h : Whole bytes nodes) :
    read bytes = some nodes := by
  have hreads := h.2 0 [] [] [] (.done [])
  rw [List.append_nil, List.append_nil] at hreads
  unfold read
  rw [readFrom_of_reads hreads _ (Nat.le_succ_of_le h.1)]

end Plenora.Lib.Wkb
