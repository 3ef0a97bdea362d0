import DeclFront.Diagnostic.Expected
import Mathlib.Data.List.ReduceOption

/-!
# Kinds in four slots

A finding is of fixed size: the kinds that would have been accepted lie in four **slots**, with a
counter of those that are taken. A kind goes into the slot with the number of the counter, and a
reader takes the slots in front of the first empty one. Nothing but the operations keeps the two
together, and two findings are compared slot by slot.

**What is stored** (`ExpectedKinds.stored`). The kinds from the first slot on, empty slots behind
them, and their number. Each way to begin gives the stored form of some kinds, and one insertion
leads from stored form to stored form (`ExpectedKinds.insert_stored`). So all slots of a run are
told from the kinds that a reader finds.

**Theorem (`KindSlots.keeps_first_kinds`).** Whatever is inserted, the slots hold the first four
distinct kinds. The kinds of a list are the same whether the insertions stop at four kinds or go
through the list, since a full set admits no kind (`ExpectedKinds.insert_of_isFull`).
-/

namespace DeclFront

open ExpectedKinds (capacity)

/-! ## Slots and a counter -/

/-- Slots for kinds, and how many of them are taken. -/
structure KindSlots where
  slots : Vector (Option TokenKind) capacity
  taken : UInt8
deriving DecidableEq

namespace KindSlots

def empty : KindSlots := ⟨Vector.replicate capacity none, 0⟩

def singleton (k : TokenKind) : KindSlots := ⟨#v[some k, none, none, none], 1⟩

/-- The kinds in front of the first empty slot. -/
def kinds (s : KindSlots) : List TokenKind :=
  (s.slots.toList.takeWhile Option.isSome).reduceOption

def size (s : KindSlots) : Nat := s.taken.toNat

def contains (s : KindSlots) (k : TokenKind) : Bool := s.kinds.any (· == k)

def isEmpty (s : KindSlots) : Bool := s.taken == 0

def isFull (s : KindSlots) : Bool := s.size == capacity

def first? (s : KindSlots) : Option TokenKind := s.slots[0]

/-- Puts `k` into the slot that the counter names, unless it is there already or all slots are
taken, and answers whether it did. There is no result if there is no such slot. -/
def insert (s : KindSlots) (k : TokenKind) : Option (Bool × KindSlots) :=
  if s.contains k || s.isFull then some (false, s)
  else if h : s.size < capacity then
    some (true, ⟨s.slots.set s.size (some k) h, s.taken + 1⟩)
  else none

/-- Inserts the kinds of a list one by one. -/
def insertEach (s : KindSlots) : List TokenKind → Option KindSlots
  | [] => some s
  | k :: ks => do
    let (_, s) ← s.insert k
    s.insertEach ks

/-- Inserts the kinds of a list in turn, and stops once all slots are taken. -/
def insertAll (s : KindSlots) : List TokenKind → Option KindSlots
  | [] => some s
  | k :: ks =>
    if s.isFull then some s
    else do
      let (_, s) ← s.insert k
      s.insertAll ks

def ofList (ks : List TokenKind) : Option KindSlots := empty.insertAll ks

/-- How a set of kinds begins. -/
inductive Origin where
  | empty
  | singleton (k : TokenKind)
  | list (ks : List TokenKind)
deriving DecidableEq

namespace Origin

/-- The kinds that are put forward in the beginning. -/
def kinds : Origin → List TokenKind
  | .empty => []
  | .singleton k => [k]
  | .list ks => ks

def slots : Origin → Option KindSlots
  | .empty => some .empty
  | .singleton k => some (.singleton k)
  | .list ks => ofList ks

/-- The slots after the kinds of a list have been inserted one by one. -/
def run (origin : Origin) (ks : List TokenKind) : Option KindSlots := do
  (← origin.slots).insertEach ks

end Origin

/-- The slots hold just these kinds, and whatever is read off them agrees. -/
structure Holds (s : KindSlots) (ks : List TokenKind) : Prop where
  kinds_eq : s.kinds = ks
  size_eq : s.size = ks.length
  /-- The kinds lie from the first slot on, and the slots behind them are empty. -/
  getElem_eq : ∀ i (h : i < capacity), s.slots[i] = ks[i]?
  isSome_iff : ∀ i (h : i < capacity), s.slots[i].isSome = true ↔ i < s.size
  contains_iff : ∀ k, s.contains k = true ↔ k ∈ ks
  isEmpty_iff : s.isEmpty = true ↔ ks = []
  isFull_iff : s.isFull = true ↔ ks.length = capacity
  first?_eq : s.first? = ks.head?

end KindSlots

/-! ## Insertions one by one -/

namespace ExpectedKinds

variable {s t : ExpectedKinds} {k : TokenKind} {ks : List TokenKind}

/-- Inserts the kinds of a list one by one. -/
def insertEach (s : ExpectedKinds) (ks : List TokenKind) : ExpectedKinds := ks.foldl insert s

theorem eq_of_kinds_eq (h : s.kinds = t.kinds) : s = t := by
  cases s
  cases t
  congr

theorem admits_iff : s.admits k = true ↔ k ∉ s.kinds ∧ s.kinds.length < capacity := by
  have hle : s.kinds.length ≤ capacity := s.length_le
  simp only [admits, contains, isFull, size, Bool.and_eq_true, Bool.not_eq_true',
    List.contains_eq_mem, decide_eq_false_iff_not, beq_eq_false_iff_ne]
  exact and_congr_right fun _ => ⟨fun hne => Nat.lt_of_le_of_ne hle hne, Nat.ne_of_lt⟩

theorem insert_of_not_admits (h : ¬ s.admits k = true) : s.insert k = s := by
  apply eq_of_kinds_eq
  rw [kinds_insert, if_neg h]

/-- An insertion changes a set just if the kind is admitted. -/
theorem insert_ne_iff : s.insert k ≠ s ↔ s.admits k = true := by
  constructor
  · intro hne
    by_contra h
    exact hne (insert_of_not_admits h)
  · intro h heq
    have hkinds := congrArg kinds heq
    rw [kinds_insert, if_pos h] at hkinds
    simp at hkinds

theorem insert_of_isFull (h : s.isFull = true) : s.insert k = s :=
  insert_of_not_admits (by simp [admits, h])

theorem insertEach_of_isFull (h : s.isFull = true) : s.insertEach ks = s := by
  induction ks with
  | nil => rfl
  | cons k ks ih =>
    rw [insertEach, List.foldl_cons, insert_of_isFull h]
    exact ih

/-- Nothing is lost by stopping at a full set. -/
theorem insertAll_eq_insertEach : s.insertAll ks = s.insertEach ks := by
  induction ks generalizing s with
  | nil => rfl
  | cons k ks ih =>
    rw [insertAll]
    split
    · next h => exact (insertEach_of_isFull h).symm
    · exact ih

theorem eraseDups_of_nodup {α : Type} [DecidableEq α] {as : List α} (h : as.Nodup) :
    as.eraseDups = as := by
  induction as with
  | nil => rfl
  | cons a as ih =>
    obtain ⟨hnew, has⟩ := List.nodup_cons.1 h
    have hfilter : as.filter (fun b => !b == a) = as := by
      rw [List.filter_eq_self]
      intro b hb
      simpa using ne_of_mem_of_not_mem hb hnew
    rw [List.eraseDups_cons, hfilter, ih has]

/-- The kinds of a set come first among the distinct kinds. -/
theorem eraseDups_kinds_append (s : ExpectedKinds) (ks : List TokenKind) :
    (s.kinds ++ ks).eraseDups = s.kinds ++ (ks.removeAll s.kinds).eraseDups := by
  rw [List.eraseDups_append, eraseDups_of_nodup s.nodup]

/-- A kind that is not admitted is there already, or no kind behind the set counts. -/
theorem take_eraseDups_cons (h : ¬ s.admits k = true) :
    (s.kinds ++ k :: ks).eraseDups.take capacity = (s.kinds ++ ks).eraseDups.take capacity := by
  rw [eraseDups_kinds_append, eraseDups_kinds_append]
  by_cases hmem : k ∈ s.kinds
  · have hremove : (k :: ks).removeAll s.kinds = ks.removeAll s.kinds := by
      simp [List.removeAll, hmem]
    rw [hremove]
  · have hfull : capacity ≤ s.kinds.length := by
      by_contra hlt
      exact h (admits_iff.2 ⟨hmem, Nat.lt_of_not_le hlt⟩)
    rw [List.take_append_of_le_length hfull, List.take_append_of_le_length hfull]

theorem kinds_insertEach (s : ExpectedKinds) (ks : List TokenKind) :
    (s.insertEach ks).kinds = (s.kinds ++ ks).eraseDups.take capacity := by
  induction ks generalizing s with
  | nil =>
    rw [List.append_nil, eraseDups_of_nodup s.nodup]
    exact (List.take_of_length_le s.length_le).symm
  | cons k ks ih =>
    show ((s.insert k).insertEach ks).kinds = _
    rw [ih (s.insert k)]
    by_cases h : s.admits k = true
    · rw [kinds_insert, if_pos h, List.append_assoc, List.singleton_append]
    · rw [insert_of_not_admits h, take_eraseDups_cons h]

/-! ## What is stored -/

/-- The kinds from the first slot on, empty slots behind them, and the number of the kinds. -/
def stored (s : ExpectedKinds) : KindSlots := ⟨Vector.ofFn fun i => s.kinds[i]?, s.size.toUInt8⟩

theorem getElem_stored (s : ExpectedKinds) {i : Nat} (h : i < capacity) :
    s.stored.slots[i] = s.kinds[i]? := by
  simp [stored]

theorem size_stored (s : ExpectedKinds) : s.stored.size = s.size := by
  have hle : s.size ≤ capacity := s.length_le
  have hlt : s.size < 2 ^ 8 := Nat.lt_of_le_of_lt hle (by decide)
  exact Nat.mod_eq_of_lt hlt

theorem toList_stored (s : ExpectedKinds) : s.stored.slots.toList =
    s.kinds.map some ++ List.replicate (capacity - s.size) none := by
  have hle : s.kinds.length ≤ capacity := s.length_le
  apply List.ext_getElem
  · simp [size]
    omega
  · intro i hi _
    rw [Vector.getElem_toList, getElem_stored s (by simpa using hi), List.getElem_append]
    split
    · next h =>
      have hi : i < s.kinds.length := by simpa using h
      rw [List.getElem_map, List.getElem?_eq_getElem hi]
    · next h =>
      have hi : s.kinds.length ≤ i := by simpa using h
      rw [List.getElem_replicate, List.getElem?_eq_none hi]

theorem kinds_stored (s : ExpectedKinds) : s.stored.kinds = s.kinds := by
  have hsome : ∀ k ∈ s.kinds.map some, k.isSome = true := by simp
  rw [KindSlots.kinds, toList_stored, List.takeWhile_append_of_pos hsome]
  simp [List.reduceOption]

theorem stored_inj : s.stored = t.stored ↔ s = t := by
  constructor
  · intro h
    apply eq_of_kinds_eq
    rw [← kinds_stored s, h, kinds_stored t]
  · exact congrArg stored

theorem stored_empty : empty.stored = KindSlots.empty := rfl

theorem stored_singleton (k : TokenKind) : (singleton k).stored = KindSlots.singleton k := rfl

theorem contains_stored (s : ExpectedKinds) (k : TokenKind) :
    s.stored.contains k = decide (k ∈ s.kinds) := by
  rw [KindSlots.contains, kinds_stored, List.any_beq', List.contains_eq_mem]

theorem isFull_stored (s : ExpectedKinds) : s.stored.isFull = s.isFull := by
  rw [KindSlots.isFull, size_stored, isFull]

/-- The slot behind the last kind takes the next one. -/
theorem stored_of_kinds_eq (hsize : s.size < capacity) (h : t.kinds = s.kinds ++ [k]) :
    t.stored = ⟨s.stored.slots.set s.size (some k) hsize, s.stored.taken + 1⟩ := by
  have hslots : t.stored.slots = s.stored.slots.set s.size (some k) hsize := by
    apply Vector.ext
    intro i hi
    rw [getElem_stored t hi, h, Vector.getElem_set, getElem_stored s hi]
    rcases Nat.lt_trichotomy i s.size with hlt | rfl | hgt
    · rw [if_neg (Nat.ne_of_gt hlt), List.getElem?_append_left hlt]
    · rw [if_pos rfl]
      exact List.getElem?_concat_length
    · have hle : (s.kinds ++ [k]).length ≤ i := by
        rw [List.length_append]
        exact hgt
      rw [if_neg (Nat.ne_of_lt hgt), List.getElem?_eq_none hle,
        List.getElem?_eq_none (Nat.le_of_lt hgt)]
  have htaken : t.stored.taken = s.stored.taken + 1 := by
    have hlength : t.size = s.size + 1 := by simp [size, h]
    show t.size.toUInt8 = s.size.toUInt8 + 1
    rw [hlength]
    exact UInt8.ofNat_add s.size 1
  rw [← hslots, ← htaken]

/-- **One insertion.** The slots answer whether the kind is admitted, and hold the same kinds as the
set from then on. No kind is put outside the slots. -/
theorem insert_stored (s : ExpectedKinds) (k : TokenKind) :
    s.stored.insert k = some (s.admits k, (s.insert k).stored) := by
  have hcond : (s.stored.contains k || s.stored.isFull) = !s.admits k := by
    rw [contains_stored, isFull_stored, admits, contains, List.contains_eq_mem, Bool.not_and,
      Bool.not_not, Bool.not_not]
  rw [KindSlots.insert, hcond]
  by_cases h : s.admits k = true
  · have hlt : s.size < capacity := (admits_iff.1 h).2
    have hkinds : (s.insert k).kinds = s.kinds ++ [k] := by rw [kinds_insert, if_pos h]
    rw [stored_of_kinds_eq hlt hkinds, h]
    simp [size_stored, hlt]
  · rw [insert_of_not_admits h]
    simp [h]

theorem insertEach_stored (s : ExpectedKinds) (ks : List TokenKind) :
    s.stored.insertEach ks = some (s.insertEach ks).stored := by
  induction ks generalizing s with
  | nil => rfl
  | cons k ks ih =>
    rw [KindSlots.insertEach, insert_stored]
    exact ih (s.insert k)

theorem insertAll_stored (s : ExpectedKinds) (ks : List TokenKind) :
    s.stored.insertAll ks = some (s.insertAll ks).stored := by
  induction ks generalizing s with
  | nil => rfl
  | cons k ks ih =>
    rw [KindSlots.insertAll, insertAll, isFull_stored, insert_stored]
    split
    · rfl
    · exact ih (s.insert k)

/-- The stored form is as the kinds tell. -/
theorem holds_stored (s : ExpectedKinds) : s.stored.Holds s.kinds where
  kinds_eq := kinds_stored s
  size_eq := size_stored s
  getElem_eq _ h := getElem_stored s h
  isSome_iff i h := by
    rw [getElem_stored s h, size_stored, isSome_getElem?]
    rfl
  contains_iff k := by rw [contains_stored, decide_eq_true_iff]
  isEmpty_iff := by
    have hzero : s.stored.isEmpty = true ↔ s.stored.size = 0 := by
      rw [KindSlots.isEmpty, beq_iff_eq, ← UInt8.toNat_inj]
      rfl
    rw [hzero, size_stored, size, List.length_eq_zero_iff]
  isFull_iff := by rw [isFull_stored, isFull, beq_iff_eq, size]
  first?_eq := (getElem_stored s (by decide)).trans List.head?_eq_getElem?.symm

end ExpectedKinds

/-! ## Any run of insertions -/

namespace KindSlots

theorem slots_origin (origin : Origin) :
    origin.slots = some (ExpectedKinds.ofList origin.kinds).stored := by
  cases origin with
  | empty => exact congrArg some ExpectedKinds.stored_empty.symm
  | singleton k => exact congrArg some (ExpectedKinds.stored_singleton k).symm
  | list ks =>
    rw [Origin.slots, ofList, ← ExpectedKinds.stored_empty]
    exact ExpectedKinds.insertAll_stored .empty ks

theorem run_eq (origin : Origin) (ks : List TokenKind) :
    origin.run ks = some ((ExpectedKinds.ofList origin.kinds).insertEach ks).stored := by
  rw [Origin.run, slots_origin]
  exact ExpectedKinds.insertEach_stored _ ks

/-- The kinds from which a set begins count like those inserted later. -/
theorem kinds_run (origin : Origin) (ks : List TokenKind) :
    ((ExpectedKinds.ofList origin.kinds).insertEach ks).kinds =
      (origin.kinds ++ ks).eraseDups.take capacity := by
  have hrun : (ExpectedKinds.ofList origin.kinds).insertEach ks =
      ExpectedKinds.empty.insertEach (origin.kinds ++ ks) := by
    rw [ExpectedKinds.ofList, ExpectedKinds.insertAll_eq_insertEach]
    exact List.foldl_append.symm
  rw [hrun, ExpectedKinds.kinds_insertEach]
  rfl

/-- **The law of the slots.** However a set of kinds begins and whatever is inserted, no kind is put
outside the slots, and these hold the first four distinct kinds in the order in which they were put
forward: from the first slot on, with empty slots behind, and counted. An insertion is answered with
"added" just if it changes what is stored, and that is if the kind is new and there is room. Two
runs store the same if and only if their first four distinct kinds are the same. To stop at a full
set makes no difference. -/
theorem keeps_first_kinds (origin : Origin) (ks : List TokenKind) :
    let e := (ExpectedKinds.ofList origin.kinds).insertEach ks
    let s := e.stored
    let first := (origin.kinds ++ ks).eraseDups.take 4
    e.kinds = first ∧ origin.run ks = some s ∧ s.Holds first ∧ s.size ≤ 4 ∧
    (∀ k, ∃ added s', s.insert k = some (added, s') ∧ (added = true ↔ s' ≠ s) ∧
      (added = true ↔ k ∉ first ∧ first.length < 4) ∧
      added = e.admits k ∧ s' = (e.insert k).stored) ∧
    (∀ (origin' : Origin) ks', origin.run ks = origin'.run ks' ↔
      first = (origin'.kinds ++ ks').eraseDups.take 4) ∧
    ofList ks = empty.insertEach ks := by
  intro e s first
  have hfirst : e.kinds = first := kinds_run origin ks
  have hholds : s.Holds first := hfirst ▸ e.holds_stored
  refine ⟨hfirst, run_eq origin ks, hholds, ?_, ?_, ?_, ?_⟩
  · rw [hholds.size_eq]
    exact List.length_take_le 4 _
  · intro k
    refine ⟨_, _, e.insert_stored k, ?_, ?_, rfl, rfl⟩
    · rw [ne_eq, ExpectedKinds.stored_inj]
      exact ExpectedKinds.insert_ne_iff.symm
    · rw [← hfirst]
      exact ExpectedKinds.admits_iff
  · intro origin' ks'
    have hfirst' : ((ExpectedKinds.ofList origin'.kinds).insertEach ks').kinds =
      (origin'.kinds ++ ks').eraseDups.take 4 := kinds_run origin' ks'
    rw [run_eq, run_eq, Option.some_inj, ExpectedKinds.stored_inj, ← hfirst, ← hfirst']
    exact ⟨congrArg ExpectedKinds.kinds, ExpectedKinds.eq_of_kinds_eq⟩
  · rw [ofList, ← ExpectedKinds.stored_empty, ExpectedKinds.insertAll_stored,
      ExpectedKinds.insertEach_stored, ExpectedKinds.insertAll_eq_insertEach]

end KindSlots

end DeclFront
