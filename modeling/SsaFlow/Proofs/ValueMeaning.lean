import Mathlib
import SsaFlow.Proofs.ValueNumbers

/-! # What the numbers stand for

    Two instructions with the same number have the same value, in every domain
    of values and under every valuation that obeys the equations of the pure
    operations.

    * `Meaning`: what the pure operations compute in some domain.
    * `Function.Obeys`: a valuation of the instructions obeys the equations.
    * `ValueClasses.Explains`: the invariant of the numbering. Every number
      stands for one value, and the number of a shape stands for the value that
      the shape computes from what its operand numbers stand for.
    * `ValueClasses.eq_of_sameNumber`: equal numbers, equal values.

    Nothing is asked of the function: ids may be listed twice or not at all, and
    operands may be missing.
-/

namespace SsaFlow

universe u

/-- What the pure operations compute in a domain of values. -/
structure Meaning (α : Type u) where
  /-- A constant of a type. -/
  constant : Constant → Ty → α
  /-- A computation with a result of a type. -/
  binary : BinaryOp → Ty → α → α → α
  /-- A comparison. -/
  compare : CompareOp → α → α → α
  /-- A conversion to a type. -/
  convert : Conversion → Ty → α → α
  /-- A read of a type, at an address, from some memory. -/
  load : Ty → α → α → α
  /-- The operands of these computations may be exchanged. -/
  exchange : ∀ op ∈ [BinaryOp.add, .mul, .and, .or, .xor], ∀ ty x y,
    binary op ty x y = binary op ty y x

variable {α : Type u}

/-- What an operation has to compute where the instructions have the values `v`;
    none for the operations that may have any value. -/
def Meaning.value? (m : Meaning α) (v : InstrId → α) (ty : Ty) : Operation → Option α
  | .constant value => some (m.constant value ty)
  | .copy source => some (v source)
  | .binary op left right => some (m.binary op ty (v left) (v right))
  | .compare op left right => some (m.compare op (v left) (v right))
  | .convert how operand => some (m.convert how ty (v operand))
  | .load address source => some (m.load ty (v address) (v source))
  | _ => none

/-- A valuation obeys the equations of a function's pure instructions. Of an
    instruction with an operand that the function does not have, nothing is
    asked. -/
def Function.Obeys (f : Function) (m : Meaning α) (v : InstrId → α) : Prop :=
  ∀ i inst, f.instr? i = some inst → (∀ o ∈ inst.operands, o.instr ∈ f.instrs.keys) →
    ∀ x, m.value? v inst.ty inst.op = some x → v i = x

/-! ### Shapes -/

namespace ValueShape

/-- The numbers that a shape has for its operands. -/
def operands : ValueShape → List Nat
  | constant _ _ => []
  | binary _ _ left right => [left, right]
  | compare _ left right => [left, right]
  | convert _ _ operand => [operand]
  | load _ address memory => [address, memory]

/-- What a shape computes where the numbers stand for the values `val`. -/
def value (m : Meaning α) (val : Nat → α) : ValueShape → α
  | constant value ty => m.constant value ty
  | binary op ty left right => m.binary op ty (val left) (val right)
  | compare op left right => m.compare op (val left) (val right)
  | convert how ty operand => m.convert how ty (val operand)
  | load ty address memory => m.load ty (val address) (val memory)

/-- Only the operands matter. -/
theorem value_congr {m : Meaning α} {val val' : Nat → α} {key : ValueShape}
    (h : ∀ n ∈ key.operands, val' n = val n) : key.value m val' = key.value m val := by
  cases key <;> simp_all [value, operands]

end ValueShape

namespace ValueClasses

/-- With numbers for its operands, an operation has a shape. -/
inductive HasShape (c : ValueClasses) (ty : Ty) : Operation → ValueShape → Prop where
  | constant (value : Constant) : HasShape c ty (.constant value) (.constant value ty)
  | binary {op : BinaryOp} {left right : InstrId} {l r : Nat} (hl : c.number? left = some l)
      (hr : c.number? right = some r) :
      HasShape c ty (.binary op left right) (.binary op ty (ordered op l r).1 (ordered op l r).2)
  | compare {op : CompareOp} {left right : InstrId} {l r : Nat} (hl : c.number? left = some l)
      (hr : c.number? right = some r) : HasShape c ty (.compare op left right) (.compare op l r)
  | convert {how : Conversion} {operand : InstrId} {n : Nat} (hn : c.number? operand = some n) :
      HasShape c ty (.convert how operand) (.convert how ty n)
  | load {address source : InstrId} {a s : Nat} (ha : c.number? address = some a)
      (hs : c.number? source = some s) : HasShape c ty (.load address source) (.load ty a s)

variable {c : ValueClasses} {op : Operation} {ty : Ty} {key : ValueShape} {n : Nat}

theorem hasShape_of_classify (h : c.classify op ty = .shaped key) : c.HasShape ty op key := by
  unfold classify at h
  split at h
  · cases h
    exact .constant _
  · split at h <;> cases h
  · split at h
    · next hl hr =>
      cases h
      exact .binary hl hr
    · cases h
  · split at h
    · next hl hr =>
      cases h
      exact .compare hl hr
    · cases h
  · split at h
    · next hn =>
      cases h
      exact .convert hn
    · cases h
  · split at h
    · next ha hs =>
      cases h
      exact .load ha hs
    · cases h
  · cases h

/-- Only a copy takes a number that is in use. -/
theorem copy_of_classify (h : c.classify op ty = .same n) :
    ∃ source, op = .copy source ∧ c.number? source = some n := by
  cases op with
  | copy source =>
    simp only [classify] at h
    split at h
    · next hn =>
      cases h
      exact ⟨source, rfl, hn⟩
    · cases h
  | binary | compare | convert | load =>
    simp only [classify] at h
    split at h <;> cases h
  | _ => cases h

/-! ### The invariant -/

/-- Every number that was given stands for one value. -/
structure Explains (f : Function) (m : Meaning α) (v : InstrId → α) (val : Nat → α)
    (c : ValueClasses) : Prop where
  /-- Only instructions of the function have numbers. -/
  known : ∀ e ∈ c.given, e.1 ∈ f.instrs.keys
  /-- An instruction has the value that its number stands for. -/
  given : ∀ e ∈ c.given, v e.1 = val e.2
  /-- The next number is not in use. -/
  used : ∀ e ∈ c.given, e.2 < c.next
  /-- The number of a shape stands for what the shape computes. -/
  shapes : ∀ e ∈ c.shapes, val e.2 = e.1.value m val
  /-- Shapes are made of numbers that are in use. -/
  shapesUsed : ∀ e ∈ c.shapes, e.2 < c.next ∧ ∀ n ∈ e.1.operands, n < c.next

namespace Explains

variable {f : Function} {m : Meaning α} {v : InstrId → α} {val : Nat → α} {i : InstrId}
  {inst : Instr}

theorem number (h : Explains f m v val c) (hn : c.number? i = some n) :
    i ∈ f.instrs.keys ∧ v i = val n ∧ n < c.next := by
  have hmem := c.mem_given_of_number? hn
  exact ⟨h.known _ hmem, h.given _ hmem, h.used _ hmem⟩

/-- The order in which two numbers are put does not matter to the value. -/
theorem binary_ordered (m : Meaning α) (val : Nat → α) (op : BinaryOp) (ty : Ty) (l r : Nat) :
    m.binary op ty (val (ordered op l r).1) (val (ordered op l r).2) =
      m.binary op ty (val l) (val r) := by
  unfold ordered
  split
  · next h =>
    -- Numbers are put in order for these five operations only.
    have hop : op ∈ [BinaryOp.add, .mul, .and, .or, .xor] := by
      cases op <;> simp_all [BinaryOp.isCommutative]
    exact m.exchange op hop ty (val r) (val l)
  · rfl

/-- A copy has the value that the number of its source stands for. -/
theorem same (h : Explains f m v val c) (hv : f.Obeys m v) (hi : f.instr? i = some inst)
    (hc : c.classify inst.op inst.ty = .same n) : v i = val n ∧ n < c.next := by
  obtain ⟨source, hop, hn⟩ := copy_of_classify hc
  obtain ⟨hkey, hval, hlt⟩ := h.number hn
  have hx : v i = v source := by
    refine hv i inst hi ?_ _ (by rw [hop]; rfl)
    simpa [Instr.operands, hop, Operation.operands] using hkey
  exact ⟨hx.trans hval, hlt⟩

/-- An instruction with a shape has the value that the shape computes. -/
theorem shaped (h : Explains f m v val c) (hv : f.Obeys m v) (hi : f.instr? i = some inst)
    (hc : c.classify inst.op inst.ty = .shaped key) :
    v i = key.value m val ∧ ∀ n ∈ key.operands, n < c.next := by
  have hobey := hv i inst hi
  have hshape := hasShape_of_classify hc
  unfold Instr.operands at hobey
  generalize inst.op = op at hobey hshape
  -- Operands with numbers are instructions of the function, so the equation holds.
  cases hshape with
  | constant value =>
    refine ⟨hobey (by simp [Operation.operands]) _ rfl, by simp [ValueShape.operands]⟩
  | @binary op left right l r hl hr =>
    obtain ⟨hlkey, hlval, hllt⟩ := h.number hl
    obtain ⟨hrkey, hrval, hrlt⟩ := h.number hr
    have hx := hobey (by simp [Operation.operands, hlkey, hrkey]) _ rfl
    constructor
    · rw [hx, hlval, hrval]
      exact (binary_ordered m val op inst.ty l r).symm
    · unfold ordered
      split <;> simp [ValueShape.operands, hllt, hrlt]
  | @compare op left right l r hl hr =>
    obtain ⟨hlkey, hlval, hllt⟩ := h.number hl
    obtain ⟨hrkey, hrval, hrlt⟩ := h.number hr
    have hx := hobey (by simp [Operation.operands, hlkey, hrkey]) _ rfl
    exact ⟨by rw [hx, hlval, hrval]; rfl, by simp [ValueShape.operands, hllt, hrlt]⟩
  | @convert how operand n hn =>
    obtain ⟨hkey, hval, hlt⟩ := h.number hn
    have hx := hobey (by simp [Operation.operands, hkey]) _ rfl
    exact ⟨by rw [hx, hval]; rfl, by simp [ValueShape.operands, hlt]⟩
  | @load address source a s ha hs =>
    obtain ⟨hakey, haval, halt⟩ := h.number ha
    obtain ⟨hskey, hsval, hslt⟩ := h.number hs
    have hx := hobey (by simp [Operation.operands, hakey, hskey]) _ rfl
    exact ⟨by rw [hx, haval, hsval]; rfl, by simp [ValueShape.operands, halt, hslt]⟩

/-! ### One visit -/

theorem give (h : Explains f m v val c) (hi : i ∈ f.instrs.keys) (hn : n < c.next)
    (hval : v i = val n) : Explains f m v val (c.give i n) := by
  have hgiven : ∀ e ∈ (c.give i n).given, e ∈ c.given ∨ e = (i, n) := fun e he => by
    simpa [ValueClasses.give] using he
  refine ⟨?_, ?_, ?_, h.shapes, h.shapesUsed⟩
  · intro e he
    rcases hgiven e he with hold | rfl
    · exact h.known e hold
    · exact hi
  · intro e he
    rcases hgiven e he with hold | rfl
    · exact h.given e hold
    · exact hval
  · intro e he
    rcases hgiven e he with hold | rfl
    · exact h.used e hold
    · exact hn

/-- The next number may be made to stand for any value, since nothing uses it. -/
theorem extend (h : Explains f m v val c) (x : α) :
    Explains f m v (Function.update val c.next x) { c with next := c.next + 1 } := by
  have hold : ∀ n, n < c.next → Function.update val c.next x n = val n := fun n hn =>
    Function.update_of_ne (Nat.ne_of_lt hn) x val
  refine ⟨h.known, ?_, ?_, ?_, ?_⟩
  · intro e he
    rw [hold e.2 (h.used e he)]
    exact h.given e he
  · intro e he
    exact Nat.lt_succ_of_lt (h.used e he)
  · intro e he
    obtain ⟨hlt, hops⟩ := h.shapesUsed e he
    rw [hold e.2 hlt, ValueShape.value_congr fun n hn => hold n (hops n hn)]
    exact h.shapes e he
  · intro e he
    obtain ⟨hlt, hops⟩ := h.shapesUsed e he
    exact ⟨Nat.lt_succ_of_lt hlt, fun n hn => Nat.lt_succ_of_lt (hops n hn)⟩

theorem giveNext (h : Explains f m v val c) (hi : i ∈ f.instrs.keys) :
    Explains f m v (Function.update val c.next (v i)) (c.giveNext i) :=
  (h.extend (v i)).give hi (Nat.lt_succ_self c.next) (Function.update_self c.next (v i) val).symm

theorem addShape (h : Explains f m v val c) (hn : n < c.next) (hkey : val n = key.value m val)
    (hops : ∀ n ∈ key.operands, n < c.next) :
    Explains f m v val { c with shapes := c.shapes ++ [(key, n)] } := by
  have hshapes : ∀ e ∈ c.shapes ++ [(key, n)], e ∈ c.shapes ∨ e = (key, n) := fun e he => by
    simpa using he
  refine ⟨h.known, h.given, h.used, ?_, ?_⟩
  · intro e he
    rcases hshapes e he with hold | rfl
    · exact h.shapes e hold
    · exact hkey
  · intro e he
    rcases hshapes e he with hold | rfl
    · exact h.shapesUsed e hold
    · exact ⟨hn, hops⟩

/-- **One visit** keeps the invariant; a new number gets the value of the visited
    instruction. -/
theorem visit (h : Explains f m v val c) (hv : f.Obeys m v) (hi : f.instr? i = some inst) :
    ∃ val', Explains f m v val' (c.visit i inst) := by
  have hkey : i ∈ f.instrs.keys := (f.instrs.mem_keys_iff i).mpr ⟨inst, hi⟩
  have hvisits := c.visits_visit i inst
  generalize c.visit i inst = c' at hvisits ⊢
  cases hvisits with
  | same n hc =>
    obtain ⟨hval, hlt⟩ := h.same hv hi hc
    exact ⟨val, h.give hkey hlt hval⟩
  | own => exact ⟨_, h.giveNext hkey⟩
  | found key n hc hmem =>
    -- The number of the shape stands for what it computes.
    obtain ⟨hval, -⟩ := h.shaped hv hi hc
    have hnum : val n = key.value m val := h.shapes (key, n) hmem
    exact ⟨val, h.give hkey (h.shapesUsed (key, n) hmem).1 (hval.trans hnum.symm)⟩
  | added key hc =>
    obtain ⟨hval, hops⟩ := h.shaped hv hi hc
    refine ⟨_, (h.giveNext hkey).addShape (Nat.lt_succ_self c.next) ?_ ?_⟩
    · rw [Function.update_self, hval]
      refine (ValueShape.value_congr fun n hn => ?_).symm
      exact Function.update_of_ne (Nat.ne_of_lt (hops n hn)) _ val
    · intro n hn
      exact Nat.lt_succ_of_lt (hops n hn)

end Explains

/-! ### The whole numbering -/

variable {f : Function} {m : Meaning α} {v : InstrId → α}

theorem explains_foldl (hv : f.Obeys m v) (visits : List (InstrId × Instr))
    (hvisits : ∀ e ∈ visits, f.instr? e.1 = some e.2) (val : Nat → α)
    (h : Explains f m v val c) :
    ∃ val', Explains f m v val' (visits.foldl (fun c e => c.visit e.1 e.2) c) := by
  induction visits generalizing c val with
  | nil => exact ⟨val, h⟩
  | cons e rest ih =>
    obtain ⟨val₁, h₁⟩ := h.visit hv (hvisits e List.mem_cons_self)
    exact ih (fun e' he' => hvisits e' (List.mem_cons_of_mem e he')) val₁ h₁

theorem explains_of (hv : f.Obeys m v) : ∃ val, Explains f m v val (of f) := by
  -- Before the first visit any values will do.
  have hempty : Explains f m v (fun _ => v default) empty := by
    constructor <;> simp [empty]
  exact explains_foldl hv f.visits (fun e he => f.instr?_of_mem_visits he) _ hempty

/-- **Equal numbers, equal values**: if two instructions have the same number, they
    have the same value under every valuation that obeys the equations of the pure
    operations, in any domain. -/
theorem eq_of_sameNumber (f : Function) (m : Meaning α) (v : InstrId → α) (hv : f.Obeys m v)
    (a b : InstrId) (h : (of f).sameNumber a b = true) : v a = v b := by
  obtain ⟨val, hval⟩ := explains_of hv
  obtain ⟨n, ha, hb⟩ := ((of f).sameNumber_iff).mp h
  rw [(hval.number ha).2.1, (hval.number hb).2.1]

/-- An instruction of a function with one block. -/
def soleInstr (i : InstrId) (op : Operation) : Instr :=
  ⟨i, ⟨0⟩, ⟨0⟩, op, .int 32 true, none, .unknown⟩

/-- Two constants added in both orders, and a copy of the second sum. -/
def twoSums : Function where
  id := ⟨0⟩
  signature := ⟨"sums", [], .void, none⟩
  entry := ⟨0⟩
  blocks := .ofList [(⟨0⟩, ⟨⟨0⟩, [⟨0⟩, ⟨1⟩, ⟨2⟩, ⟨3⟩, ⟨4⟩], .ret⟩)]
  instrs := .ofList
    [(⟨0⟩, soleInstr ⟨0⟩ (.constant (.int 2))), (⟨1⟩, soleInstr ⟨1⟩ (.constant (.int 3))),
      (⟨2⟩, soleInstr ⟨2⟩ (.binary .add ⟨0⟩ ⟨1⟩)), (⟨3⟩, soleInstr ⟨3⟩ (.binary .add ⟨1⟩ ⟨0⟩)),
      (⟨4⟩, soleInstr ⟨4⟩ (.copy ⟨3⟩))]
  exprs := .empty
  nextBlock := 1

/-- Addition of integers; all other computations come to zero. -/
def addition : Meaning Int where
  constant value _ := match value with
    | .int z => z
    | _ => 0
  binary op _ x y := if op = .add then x + y else 0
  compare _ _ _ := 0
  convert _ _ x := x
  load _ _ _ := 0
  exchange op _ ty x y := by
    split
    · exact Int.add_comm x y
    · rfl

/-- The values of the two constants; everything else comes to five. -/
def sumValues (i : InstrId) : Int := if i = ⟨0⟩ then 2 else if i = ⟨1⟩ then 3 else 5

/-- The first sum and the copy of the second have one number, and one value. -/
theorem twoSums_agree :
    twoSums.Obeys addition sumValues ∧ (of twoSums).sameNumber ⟨2⟩ ⟨4⟩ = true ∧
      sumValues ⟨2⟩ = sumValues ⟨4⟩ := by
  have hobeys : twoSums.Obeys addition sumValues := by
    intro i inst hi _ x hx
    have hmem := (twoSums.instrs.find?_eq_some_iff i inst).mp hi
    -- The five stored instructions, one by one.
    have hall : ∀ e ∈ twoSums.instrs.entries, ∀ x,
        addition.value? sumValues e.2.ty e.2.op = some x → sumValues e.1 = x := by
      decide
    exact hall (i, inst) hmem x hx
  have hsame : (of twoSums).sameNumber ⟨2⟩ ⟨4⟩ = true := by cbv
  exact ⟨hobeys, hsame, eq_of_sameNumber twoSums addition sumValues hobeys ⟨2⟩ ⟨4⟩ hsame⟩

end ValueClasses

end SsaFlow
