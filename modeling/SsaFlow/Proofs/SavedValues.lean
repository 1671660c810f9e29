import SsaFlow.Ir.Saved
import SsaFlow.Proofs.JsonShapes

/-! # Saved values are read back

    The values that instructions carry, each with a reader that undoes its
    writer: ids, locations, constants and types, and the records of one, two and
    three fields that operations are saved as.

    An integer may be read off digits that nobody would write, such as leading
    zeros or a zero sign in front of digits; its own digits take no more room.
    Types nest to any depth, and the room left is what the reader recurses on.
-/

namespace SsaFlow

open Json (Inverts Form StandsFor)

/-! ### Ids and locations -/

theorem InstrId.inverts : Inverts InstrId.read InstrId.toJson :=
  (Json.inverts_uint32.form InstrId.mk).inverts InstrId.val (fun _ => rfl) fun _ => rfl

theorem ExprId.inverts : Inverts ExprId.read ExprId.toJson :=
  (Json.inverts_uint32.form ExprId.mk).inverts ExprId.val (fun _ => rfl) fun _ => rfl

theorem FuncId.inverts : Inverts FuncId.read FuncId.toJson :=
  (Json.inverts_uint32.form FuncId.mk).inverts FuncId.val (fun _ => rfl) fun _ => rfl

theorem BlockId.inverts : Inverts BlockId.read BlockId.toJson :=
  (Json.inverts_uint32.form BlockId.mk).inverts BlockId.val (fun _ => rfl) fun _ => rfl

theorem InstrId.inverts_option :
    Inverts (Json.readOption InstrId.read) (.ofOption InstrId.toJson) := by
  refine InstrId.inverts.option ?_
  intro i h
  cases h

theorem ExprId.inverts_option :
    Inverts (Json.readOption ExprId.read) (.ofOption ExprId.toJson) := by
  refine ExprId.inverts.option ?_
  intro e h
  cases h

theorem Location.inverts : Inverts Location.read Location.toJson := by
  have hstring := Json.inverts_string
  have hnumber := Json.inverts_uint32
  refine Inverts.record (fun l => rfl) (by decide) ?_ ?_ ?_
  · intro l
    simp [hstring.prints, hnumber.prints]
  · intro room l h
    simp only [List.forall_mem_cons] at h
    obtain ⟨h₁, h₂, h₃, h₄, h₅, -⟩ := h
    simp [Json.required, hstring.reads h₁, hnumber.reads h₂, hnumber.reads h₃, hnumber.reads h₄,
      hnumber.reads h₅]
  · intro room fields l h
    split at h
    · simp only [Option.bind_eq_bind, Option.pure_def, Option.bind_eq_some_iff,
        Option.some.injEq] at h
      obtain ⟨file, h₁, line, h₂, column, h₃, line', h₄, column', h₅, rfl⟩ := h
      simp [hstring.required h₁, hnumber.required h₂, hnumber.required h₃, hnumber.required h₄,
        hnumber.required h₅]
    · cases h

/-! ### Records of one, two and three fields -/

section

variable {α β δ : Type} {read₁ : Json.Reader α} {read₂ : Json.Reader β} {write₁ : α → Json}
  {write₂ : β → Json}

theorem readOne_form (h : Inverts read₁ write₁) (name : String) (make : α → δ) :
    Form (readOne name read₁ make) make fun a => .ofMembers [(name, write₁ a)] where
  stands a := by
    refine StandsFor.record rfl (by simp) ?_ ?_
    · simp [h.prints]
    · intro room hroom
      have ha := h.reads (hroom (name, write₁ a) List.mem_cons_self)
      simp [Json.required, ha]
  fits {room j b} hread := by
    obtain ⟨inner, fields, rfl, hbuild⟩ := Json.readRecord_cases hread
    split at hbuild
    · simp only [Option.bind_eq_bind, Option.pure_def, Option.bind_eq_some_iff,
        Option.some.injEq] at hbuild
      obtain ⟨a, ha, rfl⟩ := hbuild
      exact ⟨a, rfl, Json.depth_tagged name (h.required ha)⟩
    · cases hbuild

theorem readMaybe_form (h : Inverts (Json.readOption read₁) (.ofOption write₁)) (name : String)
    (make : Option α → δ) :
    Form (readMaybe name read₁ make) make fun a => .ofMembers [(name, .ofOption write₁ a)] where
  stands a := by
    refine StandsFor.record rfl (by simp) ?_ ?_
    · simp [h.prints]
    · intro room hroom
      have ha := h.reads (hroom (name, .ofOption write₁ a) List.mem_cons_self)
      simp [Json.optional, ha]
  fits {room j b} hread := by
    obtain ⟨inner, fields, rfl, hbuild⟩ := Json.readRecord_cases hread
    split at hbuild
    · simp only [Option.bind_eq_bind, Option.pure_def, Option.bind_eq_some_iff,
        Option.some.injEq] at hbuild
      obtain ⟨a, ha, rfl⟩ := hbuild
      exact ⟨a, rfl, Json.depth_tagged name (h.optional ha)⟩
    · cases hbuild

theorem readTwo_form (h₁ : Inverts read₁ write₁) (h₂ : Inverts read₂ write₂) {name₁ name₂ : String}
    (hne : name₁ ≠ name₂) (make : α → β → δ) :
    Form (readTwo name₁ name₂ read₁ read₂ make) (fun e : α × β => make e.1 e.2) fun e =>
      .ofMembers [(name₁, write₁ e.1), (name₂, write₂ e.2)] where
  stands e := by
    refine StandsFor.record rfl (by simp [hne]) ?_ ?_
    · simp [h₁.prints, h₂.prints]
    · intro room hroom
      simp only [List.forall_mem_cons] at hroom
      obtain ⟨ha, hb, -⟩ := hroom
      simp [Json.required, h₁.reads ha, h₂.reads hb]
  fits {room j d} hread := by
    obtain ⟨inner, fields, rfl, hbuild⟩ := Json.readRecord_cases hread
    split at hbuild
    · simp only [Option.bind_eq_bind, Option.pure_def, Option.bind_eq_some_iff,
        Option.some.injEq] at hbuild
      obtain ⟨a, ha, b, hb, rfl⟩ := hbuild
      refine ⟨(a, b), rfl, (Json.depth_ofMembers_le_iff _ _).mpr ⟨inner, rfl, ?_⟩⟩
      simp [h₁.required ha, h₂.required hb]
    · cases hbuild

theorem readOperator_form (h : Inverts read₁ write₁) (make : α → InstrId → InstrId → δ) :
    Form (readOperator read₁ make) (fun e : α × InstrId × InstrId => make e.1 e.2.1 e.2.2) fun e =>
      .ofMembers [("op", write₁ e.1), ("left", e.2.1.toJson), ("right", e.2.2.toJson)] where
  stands e := by
    have hinstr := InstrId.inverts
    refine StandsFor.record rfl (by decide) ?_ ?_
    · simp [h.prints, hinstr.prints]
    · intro room hroom
      simp only [List.forall_mem_cons] at hroom
      obtain ⟨hop, hleft, hright, -⟩ := hroom
      simp [Json.required, h.reads hop, hinstr.reads hleft, hinstr.reads hright]
  fits {room j d} hread := by
    obtain ⟨inner, fields, rfl, hbuild⟩ := Json.readRecord_cases hread
    split at hbuild
    · simp only [Option.bind_eq_bind, Option.pure_def, Option.bind_eq_some_iff,
        Option.some.injEq] at hbuild
      obtain ⟨op, hop, left, hleft, right, hright, rfl⟩ := hbuild
      refine ⟨(op, left, right), rfl, (Json.depth_ofMembers_le_iff _ _).mpr ⟨inner, rfl, ?_⟩⟩
      simp [h.required hop, InstrId.inverts.required hleft, InstrId.inverts.required hright]
    · cases hbuild

end

/-! ### Constants -/

namespace Constant

/-- The written digits are those of the number. -/
theorem limbs_eq (n : Nat) :
    ∃ ds : List UInt32, limbs n = ds.map UInt32.toNat ∧ ofLimbs ds = n := by
  induction n using limbs.induct with
  | case1 => exact ⟨[], by rw [limbs]; rfl, rfl⟩
  | case2 n h ih =>
    obtain ⟨ds, hds, hvalue⟩ := ih
    have hdigit : (UInt32.ofNat (n % UInt32.size)).toNat = n % UInt32.size :=
      UInt32.toNat_ofNat_of_lt' (Nat.mod_lt _ (by decide))
    refine ⟨UInt32.ofNat (n % UInt32.size) :: ds, ?_, ?_⟩
    · rw [limbs, dif_neg h, hds, List.map_cons, hdigit]
    · rw [ofLimbs, hdigit, hvalue]
      exact Nat.mod_add_div n UInt32.size

/-- Any digits and any sign that are read make a number whose own sign and
    digits take the same two containers. -/
theorem inverts_int : Inverts readInt intJson where
  stands z := by
    obtain ⟨ds, hds, hvalue⟩ := limbs_eq z.natAbs
    have hdigits : Json.arr ((limbs z.natAbs).map Json.ofNat) =
        Json.ofList (fun d : UInt32 => .ofNat d.toNat) ds := by
      rw [hds, Json.ofList, List.map_map]
      rfl
    have hlist := Json.inverts_uint32.list.stands ds
    have hsign : ∀ room, readSign room (.ofInt z.sign) = some z.sign := by
      intro room
      have hthree : z.sign = -1 ∨ z.sign = 0 ∨ z.sign = 1 := by
        rcases Int.sign_trichotomy z with h | h | h <;> simp [h]
      show (if z.sign = -1 ∨ z.sign = 0 ∨ z.sign = 1 then some z.sign else none) = some z.sign
      rw [if_pos hthree]
    have hz : z.sign * (ofLimbs ds : Int) = z := by
      rw [hvalue]
      exact Int.sign_mul_natAbs z
    unfold intJson
    rw [hdigits]
    refine ⟨.arr ?_, ?_⟩
    · simp only [List.forall_mem_cons, List.not_mem_nil, false_implies, implies_true, and_true]
      exact ⟨.num _, hlist.prints⟩
    · intro room hroom
      obtain ⟨inner, rfl, hitems⟩ := (Json.depth_arr_le_iff _ _).mp hroom
      have hread := hlist.reads (hitems _ (List.mem_cons_of_mem _ List.mem_cons_self))
      simp [readInt, Json.readPair, hsign, hread, hz]
  fits {room j z} hread := by
    simp only [readInt, Option.bind_eq_bind, Option.pure_def, Option.bind_eq_some_iff,
      Option.some.injEq] at hread
    obtain ⟨e, hpair, -⟩ := hread
    obtain ⟨outer, a, b, rfl, -, hds⟩ := Json.readPair_cases hpair
    -- However many digits were read, they stood in a container of their own.
    obtain ⟨inner, rfl, -⟩ := (Json.depth_arr_le_iff _ _).mp (Json.inverts_uint32.list.fits hds)
    have hdigits : (Json.arr ((limbs z.natAbs).map Json.ofNat)).depth ≤ inner + 1 := by
      refine (Json.depth_arr_le_iff _ _).mpr ⟨inner, rfl, ?_⟩
      intro j hj
      obtain ⟨d, -, rfl⟩ := List.mem_map.mp hj
      exact Nat.zero_le _
    refine (Json.depth_arr_le_iff _ _).mpr ⟨inner + 1, rfl, ?_⟩
    simp only [List.forall_mem_cons, List.not_mem_nil, false_implies, implies_true, and_true]
    exact ⟨Nat.zero_le _, hdigits⟩

theorem inverts : Inverts Constant.read Constant.toJson where
  stands c := by
    cases c with
    | bool b => exact .carrying rfl ((Json.inverts_bool.form bool).stands b)
    | int z => exact .carrying rfl ((inverts_int.form int).stands z)
    | float bits => exact .carrying rfl ((Json.inverts_uint64.form float).stands bits)
    | string s => exact .carrying rfl ((Json.inverts_string.form string).stands s)
    | null => exact .plain rfl
  fits {room j c} hread := by
    rcases Json.readVariant_cases hread with ⟨name, hname⟩ | ⟨name, inner, payload, rfl, htagged⟩
    · split at hname
      · obtain rfl := Option.some.inj hname
        exact Nat.zero_le _
      · cases hname
    · split at htagged
      · obtain ⟨b, rfl, hb⟩ := (Json.inverts_bool.form bool).fits htagged
        exact Json.depth_tagged "Bool" hb
      split at htagged
      · obtain ⟨z, rfl, hz⟩ := (inverts_int.form int).fits htagged
        exact Json.depth_tagged "Int" hz
      split at htagged
      · obtain ⟨bits, rfl, hbits⟩ := (Json.inverts_uint64.form float).fits htagged
        exact Json.depth_tagged "Float" hbits
      split at htagged
      · obtain ⟨s, rfl, hs⟩ := (Json.inverts_string.form string).fits htagged
        exact Json.depth_tagged "String" hs
      · cases htagged

end Constant

/-! ### Types -/

namespace Ty

theorem depth_of_ofName? {name : String} {t : Ty} (h : ofName? name = some t) :
    t.toJson.depth = 0 := by
  unfold ofName? at h
  split at h
  · cases h; rfl
  split at h
  · cases h; rfl
  split at h
  · cases h; rfl
  · cases h

/-- The record of a function type. The parameters stand in a container of their
    own inside it. -/
def readFunction : Json.Reader Ty
  | inner + 2, payload =>
    match Json.fields? ["params", "returns"] payload with
    | some [some (.arr params), some returns] => do
      let params ← params.mapM (read inner)
      let returns ← read (inner + 1) returns
      return function params returns
    | _ => none
  | _, _ => none

/-- The forms of a type that carry something, by name. -/
def readTagged (name : String) : Json.Reader Ty :=
  if name = "Int" then readInt
  else if name = "Float" then fun room j => (Json.readUInt16 room j).map float
  else if name = "Pointer" then fun room j => (read room j).map pointer
  else if name = "Reference" then fun room j => (read room j).map reference
  else if name = "Class" then fun room j => (Json.readString room j).map named
  else if name = "Function" then readFunction
  else fun _ _ => none

theorem read_payload (room : Nat) (l : Json.Lexeme) (payload : Json) :
    read (room + 1) (.obj [(l, payload)]) =
      Json.readVariant ofName? readTagged (room + 1) (.obj [(l, payload)]) := by
  unfold read
  simp only [Json.variant?, Json.readVariant]
  cases Json.text? l with
  | none => rfl
  | some name =>
    -- The names that carry something are tried one after the other.
    by_cases hint : name = "Int"
    · subst hint; rfl
    by_cases hfloat : name = "Float"
    · subst hfloat; rfl
    by_cases hpointer : name = "Pointer"
    · subst hpointer; rfl
    by_cases hreference : name = "Reference"
    · subst hreference; rfl
    by_cases hclass : name = "Class"
    · subst hclass; rfl
    by_cases hfunction : name = "Function"
    · subst hfunction
      rcases room with _ | _ | inner <;> rfl
    · simp only [Option.map_some, readTagged, if_neg hint, if_neg hfloat, if_neg hpointer,
        if_neg hreference, if_neg hclass, if_neg hfunction]
      cases ofName? name <;> simp

/-- A type is read as a variant; its recursion goes over the room for its parts. -/
theorem read_eq : read = Json.readVariant ofName? readTagged := by
  funext room j
  rcases j with _ | _ | _ | l | _ | (_ | ⟨⟨l, payload⟩, _ | ⟨m, rest⟩⟩)
  case str =>
    cases room with
    | zero => rfl
    | succ room =>
      unfold read
      simp only [Json.variant?, Json.readVariant]
      cases Json.text? l <;> rfl
  case obj.cons.nil =>
    cases room with
    | zero => rfl
    | succ room => exact read_payload room l payload
  all_goals cases room <;> rfl

theorem toJsons_eq_map (ts : List Ty) : toJsons ts = ts.map toJson := by
  induction ts with
  | nil => rfl
  | cons t ts ih => rw [toJsons, ih, List.map_cons]

theorem stands_function {params : List Ty} {returns : Ty}
    (hparams : ∀ t ∈ params, StandsFor read t.toJson t)
    (hreturns : StandsFor read returns.toJson returns) :
    StandsFor readFunction
      (.ofMembers [("params", .arr (toJsons params)), ("returns", returns.toJson)])
      (function params returns) := by
  have hlist : StandsFor (Json.readList read) (.arr (toJsons params)) params := by
    rw [toJsons_eq_map]
    exact StandsFor.list hparams
  have hfields : Json.fields? ["params", "returns"]
      (.ofMembers [("params", .arr (toJsons params)), ("returns", returns.toJson)]) =
      some [some (.arr (toJsons params)), some returns.toJson] :=
    Json.fields?_ofMembers (by simp)
  refine ⟨Json.printable_ofMembers ?_, ?_⟩
  · simp [hlist.prints, hreturns.prints]
  · intro room hroom
    obtain ⟨outer, rfl, hmembers⟩ := (Json.depth_ofMembers_le_iff _ _).mp hroom
    simp only [List.forall_mem_cons] at hmembers
    obtain ⟨hparamsRoom, hreturnsRoom, -⟩ := hmembers
    obtain ⟨inner, rfl, -⟩ := (Json.depth_arr_le_iff _ _).mp hparamsRoom
    -- The parameters have one container less to themselves than the result.
    have hreadParams : (toJsons params).mapM (read inner) = some params := hlist.reads hparamsRoom
    have hreadReturns := hreturns.reads hreturnsRoom
    simp [readFunction, hfields, hreadParams, hreadReturns]

mutual

/-- Every type stands in its tree; a type inside another has less to read. -/
theorem stands : (t : Ty) → StandsFor read t.toJson t
  | void => by rw [read_eq]; exact .plain rfl
  | bool => by rw [read_eq]; exact .plain rfl
  | unknown => by rw [read_eq]; exact .plain rfl
  | int bits signed => by
    have hform := readTwo_form Json.inverts_uint16 Json.inverts_bool
      (show "bits" ≠ "signed" by decide) int
    rw [read_eq]
    exact .carrying rfl (hform.stands (bits, signed))
  | float bits => by
    rw [read_eq]
    exact .carrying rfl ((Json.inverts_uint16.form float).stands bits)
  | pointer t => by
    have hpointer := (stands t).made pointer
    rw [read_eq]
    exact .carrying rfl hpointer
  | reference t => by
    have hreference := (stands t).made reference
    rw [read_eq]
    exact .carrying rfl hreference
  | named name => by
    rw [read_eq]
    exact .carrying rfl ((Json.inverts_string.form named).stands name)
  | function params returns => by
    have hfunction := stands_function (standsAll params) (stands returns)
    rw [read_eq]
    exact .carrying rfl hfunction

theorem standsAll : (ts : List Ty) → ∀ t ∈ ts, StandsFor read t.toJson t
  | [] => fun t ht => nomatch ht
  | t :: ts => by
    intro u hu
    rcases List.mem_cons.mp hu with h | h
    · rw [h]
      exact stands t
    · exact standsAll ts u h

end

theorem fits_function {room : Nat} {j : Json} {t : Ty} (h : readFunction room j = some t)
    (ih : ∀ inner < room, ∀ j t, read inner j = some t → t.toJson.depth ≤ inner) :
    ∃ params returns, t = function params returns ∧
      (Json.ofMembers [("params", .arr (toJsons params)), ("returns", returns.toJson)]).depth ≤
        room := by
  unfold readFunction at h
  split at h
  · next inner =>
    split at h
    · next items item _ =>
      simp only [Option.bind_eq_bind, Option.pure_def, Option.bind_eq_some_iff,
        Option.some.injEq] at h
      obtain ⟨params, hparams, returns, hreturns, rfl⟩ := h
      have hlist : (Json.arr (toJsons params)).depth ≤ inner + 1 := by
        refine (Json.depth_arr_le_iff _ _).mpr ⟨inner, rfl, ?_⟩
        rw [toJsons_eq_map]
        intro p hp
        obtain ⟨param, hparam, rfl⟩ := List.mem_map.mp hp
        obtain ⟨item, -, hitem⟩ := Json.exists_of_mem_mapM hparams param hparam
        exact ih inner (by omega) item param hitem
      have hresult := ih (inner + 1) (by omega) item returns hreturns
      refine ⟨params, returns, rfl, (Json.depth_ofMembers_le_iff _ _).mpr ⟨inner + 1, rfl, ?_⟩⟩
      simp [hlist, hresult]
    · cases h
  · cases h

/-- What is read as a type fits where it was read, by induction on the room: the
    parts of a type are read with less. -/
theorem fits (room : Nat) :
    ∀ (j : Json) (t : Ty), read room j = some t → t.toJson.depth ≤ room := by
  induction room using Nat.strongRecOn with
  | _ room ih =>
    intro j t h
    rw [read_eq] at h
    rcases Json.readVariant_cases h with ⟨name, hname⟩ | ⟨name, inner, payload, rfl, htagged⟩
    · rw [depth_of_ofName? hname]
      exact Nat.zero_le _
    · unfold readTagged at htagged
      split at htagged
      · have hform := readTwo_form Json.inverts_uint16 Json.inverts_bool
          (show "bits" ≠ "signed" by decide) int
        obtain ⟨e, rfl, he⟩ := hform.fits htagged
        exact Json.depth_tagged "Int" he
      split at htagged
      · obtain ⟨bits, rfl, hbits⟩ := (Json.inverts_uint16.form float).fits htagged
        exact Json.depth_tagged "Float" hbits
      split at htagged
      · obtain ⟨target, htarget, rfl⟩ := Option.map_eq_some_iff.mp htagged
        exact Json.depth_tagged "Pointer" (ih inner (by omega) payload target htarget)
      split at htagged
      · obtain ⟨target, htarget, rfl⟩ := Option.map_eq_some_iff.mp htagged
        exact Json.depth_tagged "Reference" (ih inner (by omega) payload target htarget)
      split at htagged
      · obtain ⟨name, rfl, hname⟩ := (Json.inverts_string.form named).fits htagged
        exact Json.depth_tagged "Class" hname
      split at htagged
      · obtain ⟨params, returns, rfl, hdepth⟩ :=
          fits_function htagged fun i hi => ih i (by omega)
        exact Json.depth_tagged "Function" hdepth
      · cases htagged

theorem inverts : Inverts read toJson := ⟨stands, fun {room j t} h => fits room j t h⟩

theorem inverts_option : Inverts (Json.readOption read) (.ofOption toJson) := by
  refine inverts.option ?_
  intro t h
  cases t <;> cases h

end Ty

end SsaFlow
