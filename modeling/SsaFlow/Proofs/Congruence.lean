import SsaFlow.Proofs.ReversePostorder
import SsaFlow.Proofs.SelfContained
import SsaFlow.Proofs.ValueMeaning

/-! # Congruence

    Where definitions come before their uses, as in SSA form, the numbering finds
    every pair of instructions that compute the same from the same, and no other.

    * `Function.DefinesFirst`: what is used was defined before, phis apart.
    * `Function.sublist_visits`: so it is numbered before, too.
    * `ValueClasses.Accounted`: the invariant of the numbering. Every number comes
      from a copy, from a shape, or belongs to one instruction alone.
    * `ValueClasses.sameNumber_iff_alike`: equal numbers are congruence.
-/

namespace SsaFlow

/-! ### Definitions before uses -/

namespace Function

/-- Instruction `i` is listed in a block that control can get to, and is `inst`. -/
def Executes (f : Function) (i : InstrId) (inst : Instr) : Prop :=
  f.instr? i = some inst ∧ ∃ b block, f.Reachable b ∧ f.block? b = some block ∧ i ∈ block.instrs

/-- What an instruction of a reachable block uses, phis apart, is listed before it
    in its block or in a block that strictly dominates it. -/
def DefinesFirst (f : Function) : Prop :=
  ∀ b block i inst o, f.Reachable b → f.block? b = some block → i ∈ block.instrs →
    f.instr? i = some inst → (∀ incoming, inst.op ≠ .phi incoming) → inst.op.Uses o →
    [o, i].Sublist block.instrs ∨
      ∃ d before, f.StrictlyDominates d b ∧ f.block? d = some before ∧ o ∈ before.instrs

variable {f : Function} {p : Program} {b : BlockId} {block : Block} {i : InstrId}

theorem Sound.contains_of_listed (hs : f.Sound p) (hb : f.block? b = some block)
    (hi : i ∈ block.instrs) : f.instrs.contains i = true := by
  obtain ⟨inst, hinst, -⟩ := hs.placed block ((f.blocks.mem_values_iff block).mpr ⟨b, hb⟩) i hi
  exact (f.instrs.contains_iff i).mpr ((f.instrs.mem_keys_iff i).mpr ⟨inst, hinst⟩)

/-- An instruction of a reachable block is visited. -/
theorem Executes.mem_visits {inst : Instr} (hs : f.Sound p) (h : f.Executes i inst) :
    i ∈ f.visits.map Prod.fst := by
  obtain ⟨-, b, block, -, hb, hi⟩ := h
  rw [f.map_fst_visits_perm.mem_iff, List.mem_filter]
  refine ⟨?_, hs.contains_of_listed hb hi⟩
  exact List.mem_flatMap.mpr ⟨block, (f.blocks.mem_values_iff block).mpr ⟨b, hb⟩, hi⟩

/-- What is defined before an instruction is visited before it. -/
theorem sublist_visits (hs : f.Sound p) (hfirst : f.DefinesFirst) {inst : Instr} {o : InstrId}
    (hi : f.Executes i inst) (hphi : ∀ incoming, inst.op ≠ .phi incoming) (ho : inst.op.Uses o) :
    [o, i].Sublist (f.visits.map Prod.fst) := by
  obtain ⟨hinst, b, block, hreach, hb, hmem⟩ := hi
  have hb' : b ∈ f.visitOrder := List.mem_append_left _ ((f.mem_reversePostorder_iff b).mpr hreach)
  obtain ⟨hpair, hoi⟩ :
      [o, i].Sublist ((f.visitOrder.filterMap f.block?).flatMap Block.instrs) ∧
        f.instrs.contains o = true := by
    rcases hfirst b block i inst o hreach hb hmem hinst hphi ho with
      hsame | ⟨d, before, hdom, hd, homem⟩
    · have hvisited : block ∈ f.visitOrder.filterMap f.block? :=
        List.mem_filterMap.mpr ⟨b, hb', hb⟩
      have hpart : block.instrs.Sublist ((f.visitOrder.filterMap f.block?).flatMap Block.instrs) :=
        List.sublist_flatten_of_mem (List.mem_map_of_mem hvisited)
      exact ⟨hsame.trans hpart, hs.contains_of_listed hb (hsame.subset List.mem_cons_self)⟩
    · -- The dominating block comes first, with all that it lists.
      have horder : [d, b].Sublist f.visitOrder :=
        (sublist_reversePostorder hreach hdom).trans (List.sublist_append_left _ _)
      have hblocks := horder.filterMap f.block?
      have hlists := hblocks.flatMap Block.instrs
      simp only [List.filterMap_cons, hd, hb, List.filterMap_nil, List.flatMap_cons,
        List.flatMap_nil, List.append_nil] at hlists
      have hpair : [o, i].Sublist (before.instrs ++ block.instrs) :=
        (List.singleton_sublist.mpr homem).append (List.singleton_sublist.mpr hmem)
      exact ⟨hpair.trans hlists, hs.contains_of_listed hd homem⟩
  have hkept := hpair.filter f.instrs.contains
  rw [map_fst_visits]
  simpa [hoi, hs.contains_of_listed hb hmem] using hkept

end Function

/-- In a list without repeats, what comes before an item comes before its place. -/
theorem mem_of_pair_sublist {α : Type} {o i : α} {before after : List α}
    (hnodup : (before ++ i :: after).Nodup) (h : [o, i].Sublist (before ++ i :: after)) :
    o ∈ before := by
  obtain ⟨l, r, heq, hl, hr⟩ := List.sublist_append_iff.mp h
  cases l with
  | cons x l =>
    obtain rfl : o = x := (List.cons.inj heq).1
    exact hl.subset List.mem_cons_self
  | nil =>
    -- Then the item would stand twice.
    have hi : i ∉ after := (List.nodup_cons.mp (List.nodup_append.mp hnodup).2.1).1
    obtain rfl : r = [o, i] := heq.symm
    exfalso
    cases hr with
    | cons _ hskip => exact hi (hskip.subset (by simp))
    | cons_cons _ hkeep => exact hi (hkeep.subset (by simp))

/-! ### Operations and shapes -/

/-- The operation has no shape, whatever the numbers of its operands, and is no copy. -/
def Operation.Unshaped : Operation → Prop
  | .constant _ | .copy _ | .binary .. | .compare .. | .convert .. | .load .. => False
  | .variableAddress _ | .parameter _ | .receiver | .store .. | .phi _ | .chi .. | .call ..
  | .sideEffect .. | .ret _ => True

namespace ValueClasses

/-- Two instructions compute the same from operands with the same numbers. -/
def Alike (c : ValueClasses) (a b : Instr) : Prop :=
  match a.op, b.op with
  | .constant x, .constant y => x = y ∧ a.ty = b.ty
  | .binary op l r, .binary op' l' r' =>
    op = op' ∧ a.ty = b.ty ∧
      (c.sameNumber l l' = true ∧ c.sameNumber r r' = true ∨
        op ∈ [BinaryOp.add, .mul, .and, .or, .xor] ∧
          c.sameNumber l r' = true ∧ c.sameNumber r l' = true)
  | .compare op l r, .compare op' l' r' =>
    op = op' ∧ c.sameNumber l l' = true ∧ c.sameNumber r r' = true
  | .convert how o, .convert how' o' => how = how' ∧ a.ty = b.ty ∧ c.sameNumber o o' = true
  | .load l m, .load l' m' =>
    a.ty = b.ty ∧ c.sameNumber l l' = true ∧ c.sameNumber m m' = true
  | _, _ => False

variable {c c' : ValueClasses} {op : Operation} {ty : Ty} {key key' : ValueShape} {i : InstrId}
  {inst a b : Instr} {n : Nat}

theorem Alike.not_unshaped (h : c.Alike a b) : ¬ a.op.Unshaped ∧ ¬ b.op.Unshaped := by
  unfold Alike at h
  split at h
  case h_6 => exact h.elim
  all_goals
    next hopa hopb =>
      rw [hopa, hopb]
      exact ⟨id, id⟩

theorem isCommutative_iff (op : BinaryOp) :
    op.isCommutative = true ↔ op ∈ [BinaryOp.add, .mul, .and, .or, .xor] := by
  cases op <;> decide

/-- Two pairs of numbers are put in the same order if they are the same pair, or
    the same but for the order where that does not matter. -/
theorem ordered_eq_iff (op : BinaryOp) (l r l' r' : Nat) :
    ordered op l r = ordered op l' r' ↔
      l = l' ∧ r = r' ∨ op.isCommutative = true ∧ l = r' ∧ r = l' := by
  unfold ordered
  cases op.isCommutative with
  | false => simp
  | true =>
    simp only [Bool.true_and, decide_eq_true_eq, true_and]
    split <;> split <;> rw [Prod.mk.injEq] <;> omega

/-- Numbers that stay keep the shapes that were made of them. -/
theorem HasShape.mono (h : c.HasShape ty op key)
    (hmono : ∀ i n, c.number? i = some n → c'.number? i = some n) : c'.HasShape ty op key := by
  cases h with
  | constant value => exact .constant value
  | binary hl hr => exact .binary (hmono _ _ hl) (hmono _ _ hr)
  | compare hl hr => exact .compare (hmono _ _ hl) (hmono _ _ hr)
  | convert hn => exact .convert (hmono _ _ hn)
  | load ha hs => exact .load (hmono _ _ ha) (hmono _ _ hs)

/-- Instructions that have shapes are alike if they have the same one. -/
theorem alike_iff_key_eq (ha : c.HasShape a.ty a.op key) (hb : c.HasShape b.ty b.op key') :
    c.Alike a b ↔ key = key' := by
  have hsame : ∀ {i j m n}, c.number? i = some m → c.number? j = some n →
      (c.sameNumber i j = true ↔ m = n) := by
    intro i j m n hi hj
    rw [sameNumber_iff, hi, hj]
    simp [eq_comm]
  unfold Alike
  generalize a.op = opa at ha ⊢
  generalize b.op = opb at hb ⊢
  -- Of two kinds, the shapes differ; of one kind, compare the parts.
  cases ha with
  | constant value => cases hb <;> simp
  | @binary op _ _ l r hl hr =>
    cases hb with
    | @binary op' _ _ l' r' hl' hr' =>
      simp only [hsame hl hl', hsame hr hr', hsame hl hr', hsame hr hl', ValueShape.binary.injEq,
        ← isCommutative_iff]
      constructor
      · rintro ⟨rfl, hty, hpairs⟩
        rw [(ordered_eq_iff op l r l' r').mpr hpairs]
        exact ⟨rfl, hty, rfl, rfl⟩
      · rintro ⟨rfl, hty, hfst, hsnd⟩
        exact ⟨rfl, hty, (ordered_eq_iff op l r l' r').mp (Prod.ext hfst hsnd)⟩
    | _ => simp
  | compare hl hr =>
    cases hb with
    | compare hl' hr' => simp only [hsame hl hl', hsame hr hr', ValueShape.compare.injEq]
    | _ => simp
  | convert hn =>
    cases hb with
    | convert hn' => simp only [hsame hn hn', ValueShape.convert.injEq]
    | _ => simp
  | load hl hm =>
    cases hb with
    | load hl' hm' => simp only [hsame hl hl', hsame hm hm', ValueShape.load.injEq]
    | _ => simp

/-- An operation all of whose operands have numbers gets a number of its own only
    if it has no shape. -/
theorem unshaped_of_classify (h : c.classify op ty = .own)
    (hnumbered : ∀ o, op.Uses o → ∃ n, c.number? o = some n) : op.Unshaped := by
  cases op with
  | constant value => cases h
  | copy source =>
    obtain ⟨n, hn⟩ := hnumbered source (.copySource source)
    simp only [classify, hn] at h
    cases h
  | binary op left right =>
    obtain ⟨l, hl⟩ := hnumbered left (.binaryLeft op left right)
    obtain ⟨r, hr⟩ := hnumbered right (.binaryRight op left right)
    simp only [classify, hl, hr] at h
    cases h
  | compare op left right =>
    obtain ⟨l, hl⟩ := hnumbered left (.compareLeft op left right)
    obtain ⟨r, hr⟩ := hnumbered right (.compareRight op left right)
    simp only [classify, hl, hr] at h
    cases h
  | convert how operand =>
    obtain ⟨n, hn⟩ := hnumbered operand (.converted how operand)
    simp only [classify, hn] at h
    cases h
  | load address source =>
    obtain ⟨l, hl⟩ := hnumbered address (.loadAddress address source)
    obtain ⟨m, hm⟩ := hnumbered source (.loadSource address source)
    simp only [classify, hl, hm] at h
    cases h
  | _ => trivial

/-! ### Where a number comes from -/

variable {f : Function} {j : InstrId} {ready : InstrId → Prop}

/-- Where the number `n` of instruction `i` comes from. If `r` holds, the operands
    had numbers before. -/
inductive Origin (f : Function) (r : Prop) (c : ValueClasses) (i : InstrId) (inst : Instr)
    (n : Nat) : Prop where
  /-- From the source of a copy. -/
  | copied {source : InstrId} (hop : inst.op = .copy source) (hsource : c.number? source = some n)
  /-- From the shape of the instruction. -/
  | shaped {key : ValueShape} (hkey : c.HasShape inst.ty inst.op key) (hmem : (key, n) ∈ c.shapes)
  /-- From nowhere: no shape has it, and only copies share it. -/
  | alone (hop : r → inst.op.Unshaped) (hout : ∀ key, (key, n) ∉ c.shapes)
      (hsole : ∀ j inst', f.instr? j = some inst' → (j, n) ∈ c.given →
        j = i ∨ ∃ source, inst'.op = .copy source)

/-- The invariant of the numbering, where the operands of the instructions that are
    `ready` have numbers in time. -/
structure Accounted (f : Function) (ready : InstrId → Prop) (c : ValueClasses) : Prop where
  /-- No instruction is given two numbers. -/
  once : (c.given.map Prod.fst).Nodup
  /-- The next number is given to no instruction -/
  below : ∀ e ∈ c.given, e.2 < c.next
  /-- and to no shape. -/
  shapesBelow : ∀ e ∈ c.shapes, e.2 < c.next
  /-- A shape has one number, -/
  keys : (c.shapes.map Prod.fst).Nodup
  /-- and different shapes have different ones. -/
  numbers : (c.shapes.map Prod.snd).Nodup
  /-- Every number comes from somewhere. -/
  origin : ∀ i inst n, f.instr? i = some inst → (i, n) ∈ c.given → Origin f (ready i) c i inst n

theorem accounted_empty (f : Function) (ready : InstrId → Prop) : Accounted f ready empty where
  once := List.nodup_nil
  below _ h := nomatch h
  shapesBelow _ h := nomatch h
  keys := List.nodup_nil
  numbers := List.nodup_nil
  origin _ _ _ _ h := nomatch h

/-- A new instruction takes no other's number away. -/
theorem number?_give (hnew : i ∉ c.given.map Prod.fst) {m : Nat} (h : c.number? j = some m) :
    (c.give i n).number? j = some m := by
  have hne : i ≠ j := by
    rintro rfl
    exact hnew (List.mem_map_of_mem (c.mem_given_of_number? h))
  unfold number? at h ⊢
  show (((c.given ++ [(i, n)]).reverse).find? fun e => e.1 = j).map Prod.snd = some m
  rw [List.reverse_append, List.reverse_singleton, List.singleton_append,
    List.find?_cons_of_neg (by simpa using hne)]
  exact h

namespace Accounted

/-- One more instruction with a number that is in use, or was set aside for it. -/
theorem give (h : Accounted f ready c) (hi : f.instr? i = some inst)
    (hnew : i ∉ c.given.map Prod.fst) (hn : n < c.next)
    (hshare : (∃ source, inst.op = .copy source) ∨ (∃ key, (key, n) ∈ c.shapes) ∨
      ∀ j, (j, n) ∉ c.given)
    (horigin : Origin f (ready i) (c.give i n) i inst n) : Accounted f ready (c.give i n) := by
  have hgiven : ∀ e ∈ (c.give i n).given, e ∈ c.given ∨ e = (i, n) := fun e he => by
    simpa [ValueClasses.give] using he
  refine ⟨?_, ?_, h.shapesBelow, h.keys, h.numbers, ?_⟩
  · show ((c.given ++ [(i, n)]).map Prod.fst).Nodup
    rw [List.map_append, List.nodup_append]
    refine ⟨h.once, by simp, ?_⟩
    intro x hx y hy hxy
    obtain rfl : y = i := by simpa using hy
    exact hnew (hxy ▸ hx)
  · intro e he
    rcases hgiven e he with hold | rfl
    · exact h.below e hold
    · exact hn
  · intro j inst' m hj hmem
    rcases hgiven _ hmem with hold | hlast
    · have hmono : ∀ s k, c.number? s = some k → (c.give i n).number? s = some k :=
        fun s k => number?_give hnew
      cases h.origin j inst' m hj hold with
      | copied hop hsource => exact .copied hop (hmono _ _ hsource)
      | shaped hkey hshape => exact .shaped (hkey.mono hmono) hshape
      | alone hop hout hsole =>
        refine .alone hop hout ?_
        intro x instx hx hxm
        rcases hgiven _ hxm with hxold | hxlast
        · exact hsole x instx hx hxold
        · -- The new instruction shares the number only if it is a copy.
          obtain ⟨rfl, rfl⟩ := Prod.mk.inj hxlast
          obtain rfl := Option.some.inj (hi.symm.trans hx)
          rcases hshare with hcopy | ⟨key, hkey⟩ | hunused
          · exact .inr hcopy
          · exact absurd hkey (hout key)
          · exact absurd hold (hunused j)
    · obtain ⟨rfl, rfl⟩ := Prod.mk.inj hlast
      obtain rfl := Option.some.inj (hi.symm.trans hj)
      exact horigin

/-- The next number is set aside. -/
theorem skip (h : Accounted f ready c) : Accounted f ready { c with next := c.next + 1 } := by
  refine ⟨h.once, ?_, ?_, h.keys, h.numbers, ?_⟩
  · intro e he
    exact Nat.lt_succ_of_lt (h.below e he)
  · intro e he
    exact Nat.lt_succ_of_lt (h.shapesBelow e he)
  · intro j inst' m hj hmem
    cases h.origin j inst' m hj hmem with
    | copied hop hsource => exact .copied hop hsource
    | shaped hkey hshape => exact .shaped (hkey.mono fun _ _ => id) hshape
    | alone hop hout hsole => exact .alone hop hout hsole

/-- A new shape gets the next number. -/
theorem addShape (h : Accounted f ready c) (hkey : ∀ m, (key, m) ∉ c.shapes) :
    Accounted f ready
      { c with shapes := c.shapes ++ [(key, c.next)], next := c.next + 1 } := by
  have hshapes : ∀ e ∈ c.shapes ++ [(key, c.next)], e ∈ c.shapes ∨ e = (key, c.next) :=
    fun e he => by simpa using he
  refine ⟨h.once, h.skip.below, ?_, ?_, ?_, ?_⟩
  · intro e he
    rcases hshapes e he with hold | rfl
    · exact h.skip.shapesBelow e hold
    · exact Nat.lt_succ_self c.next
  · rw [List.map_append, List.nodup_append]
    refine ⟨h.keys, by simp, ?_⟩
    rintro x hx y hy rfl
    obtain ⟨e, he, rfl⟩ := List.mem_map.mp hx
    obtain heq : e.1 = key := by simpa using hy
    exact hkey e.2 (heq ▸ he)
  · rw [List.map_append, List.nodup_append]
    refine ⟨h.numbers, by simp, ?_⟩
    rintro x hx y hy rfl
    obtain ⟨e, he, rfl⟩ := List.mem_map.mp hx
    obtain heq : e.2 = c.next := by simpa using hy
    exact absurd (h.shapesBelow e he) (by omega)
  · intro j inst' m hj hmem
    have hm : m < c.next := h.below (j, m) hmem
    cases h.origin j inst' m hj hmem with
    | copied hop hsource => exact .copied hop hsource
    | shaped hkey' hshape =>
      exact .shaped (hkey'.mono fun _ _ => id) (List.mem_append_left _ hshape)
    | alone hop hout hsole =>
      refine .alone hop ?_ hsole
      intro key' hkey'
      rcases hshapes _ hkey' with hold | heq
      · exact hout key' hold
      · obtain ⟨-, rfl⟩ := Prod.mk.inj heq
        omega

/-- **One visit** keeps the invariant. -/
theorem visit (h : Accounted f ready c) (hi : f.instr? i = some inst)
    (hnew : i ∉ c.given.map Prod.fst)
    (hready : ready i → ∀ o, inst.op.Uses o → ∃ n, c.number? o = some n) :
    Accounted f ready (c.visit i inst) := by
  have hmono : ∀ {n} s k, c.number? s = some k → (c.give i n).number? s = some k :=
    fun s k => number?_give hnew
  have hunused : ∀ j, (j, c.next) ∉ c.given := fun j hj => Nat.lt_irrefl _ (h.below _ hj)
  have hvisits := c.visits_visit i inst
  generalize c.visit i inst = c' at hvisits ⊢
  cases hvisits with
  | same n hc =>
    obtain ⟨source, hop, hn⟩ := copy_of_classify hc
    exact h.give hi hnew (h.below _ (c.mem_given_of_number? hn)) (.inl ⟨source, hop⟩)
      (.copied hop (hmono _ _ hn))
  | own hc =>
    -- The number is new, so nothing else has it.
    refine h.skip.give hi hnew (Nat.lt_succ_self c.next) (.inr (.inr hunused)) (.alone ?_ ?_ ?_)
    · intro hr
      exact unshaped_of_classify hc (hready hr)
    · intro key hkey
      exact Nat.lt_irrefl _ (h.shapesBelow _ hkey)
    · intro j inst' _ hj
      rcases List.mem_append.mp hj with hold | hlast
      · exact absurd hold (hunused j)
      · exact .inl (Prod.mk.inj (List.mem_singleton.mp hlast)).1
  | found key n hc hmem =>
    exact h.give hi hnew (h.shapesBelow (key, n) hmem) (.inr (.inl ⟨key, hmem⟩))
      (.shaped ((hasShape_of_classify hc).mono hmono) hmem)
  | added key hc hout =>
    have hlast : (key, c.next) ∈ c.shapes ++ [(key, c.next)] := List.mem_append_right _ (by simp)
    exact (h.addShape hout).give hi hnew (Nat.lt_succ_self c.next) (.inr (.inl ⟨key, hlast⟩))
      (.shaped ((hasShape_of_classify hc).mono hmono) hlast)

end Accounted

/-! ### The whole numbering -/

/-- The visits keep the invariant, if what ready instructions use is visited before
    them. -/
theorem accounted_foldl (hnodup : (f.visits.map Prod.fst).Nodup)
    (hready : ∀ done e rest, f.visits = done ++ e :: rest → ready e.1 →
      ∀ o, e.2.op.Uses o → o ∈ done.map Prod.fst)
    (rest done : List (InstrId × Instr)) (hvisits : f.visits = done ++ rest)
    (hgiven : c.given.map Prod.fst = done.map Prod.fst) (h : Accounted f ready c) :
    Accounted f ready (rest.foldl (fun c e => c.visit e.1 e.2) c) := by
  -- The visits are split into those that are done and those to come.
  induction rest generalizing done c with
  | nil => exact h
  | cons e rest ih =>
    have hinst : f.instr? e.1 = some e.2 := f.instr?_of_mem_visits (by simp [hvisits])
    have hnew : e.1 ∉ c.given.map Prod.fst := by
      rw [hvisits, List.map_append, List.map_cons, List.nodup_append] at hnodup
      rw [hgiven]
      intro hmem
      exact hnodup.2.2 e.1 hmem e.1 List.mem_cons_self rfl
    have hnumbered : ready e.1 → ∀ o, e.2.op.Uses o → ∃ n, c.number? o = some n := by
      intro hr o ho
      have hmem := hready done e rest hvisits hr o ho
      rw [← hgiven] at hmem
      exact (c.exists_number?_iff h.once).mpr hmem
    obtain ⟨n, hn⟩ := c.given_visit e.1 e.2
    refine ih (done ++ [e]) ?_ ?_ (h.visit hinst hnew hnumbered)
    · rw [hvisits, List.append_assoc, List.singleton_append]
    · rw [hn, List.map_append, List.map_append, hgiven]
      rfl

variable {p : Program} {k : FuncId}

/-- Where definitions come first, what is executed has a number that comes from
    somewhere, with all operands numbered in time but those of a phi. -/
theorem accounted_of (hs : f.Sound p) (hfirst : f.DefinesFirst) :
    Accounted f (fun i => ∃ inst, f.Executes i inst ∧ ∀ incoming, inst.op ≠ .phi incoming)
      (of f) := by
  have hnodup := f.nodup_map_fst_visits hs.listedOnce
  refine accounted_foldl hnodup ?_ f.visits [] rfl rfl (accounted_empty f _)
  rintro done e rest hvisits ⟨inst, hexec, hphi⟩ o ho
  have hinst : f.instr? e.1 = some e.2 := f.instr?_of_mem_visits (by simp [hvisits])
  obtain rfl := Option.some.inj (hexec.1.symm.trans hinst)
  have hpair := Function.sublist_visits hs hfirst hexec hphi ho
  rw [hvisits, List.map_append, List.map_cons] at hpair hnodup
  exact mem_of_pair_sublist hnodup hpair

/-- An executed instruction has a number. -/
theorem exists_number?_of_executes (hs : f.Sound p) (h : f.Executes i inst) :
    ∃ n, (of f).number? i = some n := by
  have hmem := h.mem_visits hs
  have honce := f.nodup_map_fst_visits hs.listedOnce
  rw [← map_fst_given_of] at hmem honce
  exact ((of f).exists_number?_iff honce).mpr hmem

namespace Origin

variable {r : Prop}

theorem of_copy (h : Origin f r c i inst n) (hr : r) {source : InstrId}
    (hop : inst.op = .copy source) : c.number? source = some n := by
  cases h with
  | copied hop' hsource =>
    obtain rfl := Operation.copy.inj (hop.symm.trans hop')
    exact hsource
  | shaped hkey =>
    rw [hop] at hkey
    cases hkey
  | alone hunshaped =>
    have hfalse := hunshaped hr
    rw [hop] at hfalse
    exact hfalse.elim

theorem exists_shape (h : Origin f r c i inst n) (hr : r) (hop : ¬ inst.op.Unshaped)
    (hcopy : ∀ source, inst.op ≠ .copy source) :
    ∃ key, c.HasShape inst.ty inst.op key ∧ (key, n) ∈ c.shapes := by
  cases h with
  | copied hop' => exact absurd hop' (hcopy _)
  | shaped hkey hmem => exact ⟨_, hkey, hmem⟩
  | alone hunshaped => exact absurd (hunshaped hr) hop

end Origin

/-- Two instructions that share a number without a copy have one shape. -/
theorem Accounted.alike_of_origins {r r' : Prop} (h : Accounted f ready c)
    (ha : Origin f r c i a n) (hb : Origin f r' c j b n) (hj : f.instr? j = some b)
    (hmem : (j, n) ∈ c.given) (hne : i ≠ j) (hcopya : ∀ source, a.op ≠ .copy source)
    (hcopyb : ∀ source, b.op ≠ .copy source) : c.Alike a b := by
  cases ha with
  | copied hop => exact absurd hop (hcopya _)
  | alone _ hout hsole =>
    rcases hsole j b hj hmem with heq | ⟨source, hop⟩
    · exact absurd heq.symm hne
    · exact absurd hop (hcopyb source)
  | shaped hkey hshape =>
    cases hb with
    | copied hop => exact absurd hop (hcopyb _)
    | alone _ hout => exact absurd hshape (hout _)
    | shaped hkey' hshape' =>
      have heq := List.inj_on_of_nodup_map h.numbers hshape hshape' rfl
      exact (alike_iff_key_eq hkey hkey').mpr (Prod.mk.inj heq).1

/-- **Equal numbers are congruence.** In a function of a program that passes the
    check, where definitions come before uses: a copy has the number of its
    source, and two other instructions have the same number exactly if they
    compute the same from operands with the same numbers. So an instruction that
    the numbering does not look into shares its number only with copies. -/
theorem sameNumber_iff_alike (hv : p.validate = .ok ()) (hf : p.function? k = some f)
    (hfirst : f.DefinesFirst) (ha : f.Executes i a) (hb : f.Executes j b) :
    (∀ source, a.op = .copy source → (of f).sameNumber i source = true) ∧
    (i ≠ j → (∀ source, a.op ≠ .copy source) → (∀ source, b.op ≠ .copy source) →
      ((of f).sameNumber i j = true ↔ (of f).Alike a b) ∧
      (a.op.Unshaped → (of f).sameNumber i j = false)) := by
  have hs := (Program.validate_iff p).mp hv k f hf
  have haccounted := accounted_of hs hfirst
  obtain ⟨m, hm⟩ := exists_number?_of_executes hs ha
  obtain ⟨n, hn⟩ := exists_number?_of_executes hs hb
  have hmgiven := (of f).mem_given_of_number? hm
  have hngiven := (of f).mem_given_of_number? hn
  have horigin := haccounted.origin i a m ha.1 hmgiven
  have horigin' := haccounted.origin j b n hb.1 hngiven
  constructor
  · intro source hop
    have hphi : ∀ incoming, a.op ≠ .phi incoming := by simp [hop]
    exact (of f).sameNumber_iff.mpr ⟨m, hm, horigin.of_copy ⟨a, ha, hphi⟩ hop⟩
  · intro hne hcopya hcopyb
    have hiff : (of f).sameNumber i j = true ↔ (of f).Alike a b := by
      constructor
      · intro hsame
        obtain ⟨l, hl, hl'⟩ := (of f).sameNumber_iff.mp hsame
        obtain rfl := Option.some.inj (hm.symm.trans hl)
        obtain rfl := Option.some.inj (hn.symm.trans hl')
        exact haccounted.alike_of_origins horigin horigin' hb.1 hngiven hne hcopya hcopyb
      · intro halike
        obtain ⟨hopa, hopb⟩ := halike.not_unshaped
        -- A phi has no shape, so the operands of both had numbers in time.
        have hphi : ∀ {x : Instr}, ¬ x.op.Unshaped → ∀ incoming, x.op ≠ .phi incoming := by
          intro x hx incoming hop
          rw [hop] at hx
          exact hx trivial
        obtain ⟨key, hkey, hshape⟩ := horigin.exists_shape ⟨a, ha, hphi hopa⟩ hopa hcopya
        obtain ⟨key', hkey', hshape'⟩ := horigin'.exists_shape ⟨b, hb, hphi hopb⟩ hopb hcopyb
        have heq := List.inj_on_of_nodup_map haccounted.keys hshape hshape'
          ((alike_iff_key_eq hkey hkey').mp halike)
        rw [(Prod.mk.inj heq).2] at hm
        exact (of f).sameNumber_iff.mpr ⟨n, hm, hn⟩
    refine ⟨hiff, ?_⟩
    intro hunshaped
    rw [← Bool.not_eq_true, hiff]
    intro halike
    exact halike.not_unshaped.1 hunshaped

/-- Two constants, added in one block and, in the other order, in the next one,
    where the second sum is copied. -/
def sumsAcross : Function where
  id := ⟨0⟩
  signature := ⟨"sums", [], .void, none⟩
  entry := ⟨0⟩
  blocks := .ofList
    [(⟨0⟩, ⟨⟨0⟩, [⟨0⟩, ⟨1⟩, ⟨2⟩], .jump ⟨1⟩⟩), (⟨1⟩, ⟨⟨1⟩, [⟨3⟩, ⟨4⟩], .ret⟩)]
  instrs := .ofList
    [(⟨0⟩, soleInstr ⟨0⟩ (.constant (.int 2))), (⟨1⟩, soleInstr ⟨1⟩ (.constant (.int 3))),
      (⟨2⟩, soleInstr ⟨2⟩ (.binary .add ⟨0⟩ ⟨1⟩)),
      (⟨3⟩, { soleInstr ⟨3⟩ (.binary .add ⟨1⟩ ⟨0⟩) with block := ⟨1⟩ }),
      (⟨4⟩, { soleInstr ⟨4⟩ (.copy ⟨3⟩) with block := ⟨1⟩ })]
  exprs := .empty
  nextBlock := 2

theorem definesFirst_sumsAcross : sumsAcross.DefinesFirst := by
  intro b block i inst o _ hb hi hinst _ ho
  obtain ⟨operand, hoperand, rfl⟩ := (inst.op.exists_operand_iff o).mpr ho
  -- Only the second block uses what the first one lists.
  have hall : ∀ e ∈ sumsAcross.blocks.entries, ∀ i ∈ e.2.instrs, ∀ inst ∈ sumsAcross.instr? i,
      ∀ o ∈ inst.op.operands, [o.instr, i].Sublist e.2.instrs ∨
        e.1 ≠ ⟨0⟩ ∧ ∃ before ∈ sumsAcross.block? ⟨0⟩, o.instr ∈ before.instrs := by
    decide
  have hentry := (sumsAcross.blocks.find?_eq_some_iff b block).mp hb
  rcases hall (b, block) hentry i hi inst hinst operand hoperand with hsame | ⟨hne, before, hd, ho⟩
  · exact .inl hsame
  · exact .inr ⟨⟨0⟩, before, ⟨Ne.symm hne, fun es _ => Path.start_mem_places _ es⟩, hd, ho⟩

/-- The two sums have one number, and so has the copy of the second. -/
theorem sumsAcross_congruent :
    (Program.empty.insert sumsAcross).validate = .ok () ∧
      (of sumsAcross).sameNumber ⟨2⟩ ⟨3⟩ = true ∧ (of sumsAcross).sameNumber ⟨4⟩ ⟨3⟩ = true := by
  have hfirst : sumsAcross.ControlEdge ⟨0⟩ ⟨1⟩ := ⟨_, rfl, List.mem_singleton.mpr rfl⟩
  have hsum : sumsAcross.Executes ⟨2⟩ (soleInstr ⟨2⟩ (.binary .add ⟨0⟩ ⟨1⟩)) :=
    ⟨rfl, ⟨0⟩, _, ⟨[], .stay _⟩, rfl, by decide⟩
  have hsum' : sumsAcross.Executes ⟨3⟩
      { soleInstr ⟨3⟩ (.binary .add ⟨1⟩ ⟨0⟩) with block := ⟨1⟩ } :=
    ⟨rfl, ⟨1⟩, _, ⟨_, .step hfirst (.stay _)⟩, rfl, by decide⟩
  have hcopy : sumsAcross.Executes ⟨4⟩ { soleInstr ⟨4⟩ (.copy ⟨3⟩) with block := ⟨1⟩ } :=
    ⟨rfl, ⟨1⟩, _, ⟨_, .step hfirst (.stay _)⟩, rfl, by decide⟩
  have hsums := sameNumber_iff_alike (p := Program.empty.insert sumsAcross) (k := ⟨0⟩) rfl rfl
    definesFirst_sumsAcross hsum hsum'
  have hcopied := sameNumber_iff_alike (p := Program.empty.insert sumsAcross) (k := ⟨0⟩) rfl rfl
    definesFirst_sumsAcross hcopy hsum'
  refine ⟨rfl, ?_, hcopied.1 ⟨3⟩ rfl⟩
  refine (hsums.2 (by decide) nofun nofun).1.mpr ⟨rfl, rfl, .inr ⟨by decide, ?_, ?_⟩⟩
  · cbv
  · cbv

end ValueClasses

end SsaFlow
