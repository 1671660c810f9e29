import SsaFlow.Json.Shape
import SsaFlow.Proofs.JsonTrees

/-! # Readers and writers of shapes

    How the reader of a shape and its writer belong together.

    * `StandsFor`: a tree can be printed, and is read as a given value wherever
      there is room for it.
    * `Inverts`: what the writer writes stands for what was written, and what the
      reader accepts, in whichever of the forms it allows, takes no more room once
      it is written again.
    * `Form`: the same for a reader that knows only one way to make a value, such
      as the payload of one variant.

    Each shape has a lemma that carries this from the parts to the whole:
    `Inverts.option`, `Inverts.list`, `Inverts.pair`, `Inverts.map`, `Inverts.record`,
    and `StandsFor.plain` and `StandsFor.carrying` for the two forms of a variant.
-/

namespace SsaFlow

/-! ### Maps from lists -/

theorem Entries.put_of_not_mem {κ α : Type} [DecidableEq κ] {k : κ} (v : α) {l : List (κ × α)}
    (h : k ∉ l.map Prod.fst) : put k v l = l ++ [(k, v)] := by
  induction l with
  | nil => rfl
  | cons e rest ih =>
    have hne : ¬ e.1 = k := fun he => h (he ▸ List.mem_cons_self)
    have hrest := ih fun hk => h (List.mem_cons_of_mem e.1 hk)
    simp [put, hne, hrest]

namespace OrderedMap

variable {κ α : Type} [DecidableEq κ] [Coded κ]

/-- Entries with new and distinct keys go to the end, in order. -/
theorem entries_insertAll (m : OrderedMap κ α) {l : List (κ × α)} (hl : (l.map Prod.fst).Nodup)
    (hnew : ∀ k ∈ l.map Prod.fst, k ∉ m.keys) : (m.insertAll l).entries = m.entries ++ l := by
  induction l generalizing m with
  | nil => exact (List.append_nil _).symm
  | cons e rest ih =>
    obtain ⟨hfresh, hrest⟩ := List.nodup_cons.mp hl
    have hkey : e.1 ∉ m.keys := hnew e.1 List.mem_cons_self
    have hput : (m.insert e.1 e.2).entries = m.entries ++ [e] := Entries.put_of_not_mem e.2 hkey
    have hlater : ∀ k ∈ rest.map Prod.fst, k ∉ (m.insert e.1 e.2).keys := by
      intro k hk
      rw [keys_insert, if_neg hkey, List.mem_append, List.mem_singleton]
      rintro (hm | rfl)
      · exact hnew k (List.mem_cons_of_mem _ hk) hm
      · exact hfresh hk
    have htail := ih (m.insert e.1 e.2) hrest hlater
    show ((m.insert e.1 e.2).insertAll rest).entries = m.entries ++ e :: rest
    rw [htail, hput, List.append_assoc]
    rfl

/-- A map is the map of its own entries. -/
theorem ofList_entries (m : OrderedMap κ α) : ofList m.entries = m := by
  apply ext
  have hfresh : ∀ k ∈ m.entries.map Prod.fst, k ∉ (empty : OrderedMap κ α).keys := by
    intro k _ hk
    cases hk
  exact entries_insertAll empty m.distinct hfresh

/-- A map of a list holds nothing that the list does not hold. -/
theorem mem_of_mem_ofList {l : List (κ × α)} {e : κ × α} (h : e ∈ (ofList l).entries) : e ∈ l := by
  have hrun : ∀ (l : List (κ × α)) (m : OrderedMap κ α), e ∈ (m.insertAll l).entries →
      e ∈ m.entries ∨ e ∈ l := by
    intro l
    induction l with
    | nil => intro m hm; exact Or.inl hm
    | cons d rest ih =>
      intro m hm
      rcases ih (m.insert d.1 d.2) hm with hin | hin
      · -- An entry of the map after one insertion is the new one, or an old one.
        have hfind := (find?_eq_some_iff (m.insert d.1 d.2) e.1 e.2).mpr hin
        rw [find?_insert] at hfind
        split at hfind
        · next hk =>
          have hd : e = d := Prod.ext hk (Option.some.inj hfind).symm
          exact Or.inr (hd ▸ List.mem_cons_self)
        · exact Or.inl ((find?_eq_some_iff m e.1 e.2).mp hfind)
      · exact Or.inr (List.mem_cons_of_mem d hin)
  rcases hrun l empty h with hin | hin
  · cases hin
  · exact hin

end OrderedMap

namespace Json

/-! ### Reading many -/

theorem mapM_eq_map {α β : Type} {f : α → Option β} {g : α → β} {l : List α}
    (h : ∀ a ∈ l, f a = some (g a)) : l.mapM f = some (l.map g) := by
  induction l with
  | nil => rfl
  | cons a l ih =>
    have hrest := ih fun b hb => h b (List.mem_cons_of_mem a hb)
    simp [List.mapM_cons, h a List.mem_cons_self, hrest]

theorem exists_of_mem_mapM {α β : Type} {f : α → Option β} {l : List α} {r : List β}
    (h : l.mapM f = some r) : ∀ b ∈ r, ∃ a ∈ l, f a = some b := by
  induction l generalizing r with
  | nil =>
    intro b hb
    simp only [List.mapM_nil, Option.pure_def, Option.some.injEq] at h
    rw [← h] at hb
    cases hb
  | cons a l ih =>
    simp only [List.mapM_cons, Option.bind_eq_bind, Option.pure_def, Option.bind_eq_some_iff,
      Option.some.injEq] at h
    obtain ⟨b₁, hb₁, r₁, hr₁, rfl⟩ := h
    intro b hb
    rcases List.mem_cons.mp hb with rfl | hb
    · exact ⟨a, List.mem_cons_self, hb₁⟩
    · obtain ⟨a', ha', hread⟩ := ih hr₁ b hb
      exact ⟨a', List.mem_cons_of_mem a ha', hread⟩

/-! ### Readers that undo a writer -/

/-- The tree can be printed, and is read as `a` wherever there is room for it. -/
structure StandsFor {α : Type} (read : Reader α) (j : Json) (a : α) : Prop where
  prints : j.Printable
  reads : ∀ {room}, j.depth ≤ room → read room j = some a

/-- The reader undoes the writer. -/
structure Inverts {α : Type} (read : Reader α) (write : α → Json) : Prop where
  /-- What is written stands for what was to be written. -/
  stands : ∀ a, StandsFor read (write a) a
  /-- What is read fits, once it is written, into the room it was read in. -/
  fits : ∀ {room j a}, read room j = some a → (write a).depth ≤ room

/-- The reader undoes the writer of the values that `make` makes, and reads no
    others. -/
structure Form {α β : Type} (read : Reader β) (make : α → β) (write : α → Json) : Prop where
  stands : ∀ a, StandsFor read (write a) (make a)
  fits : ∀ {room j b}, read room j = some b → ∃ a, b = make a ∧ (write a).depth ≤ room

section

variable {α β : Type} {read : Reader α} {write : α → Json}

theorem Inverts.reads (h : Inverts read write) {room : Nat} {a : α}
    (hroom : (write a).depth ≤ room) : read room (write a) = some a :=
  (h.stands a).reads hroom

theorem Inverts.prints (h : Inverts read write) (a : α) : (write a).Printable :=
  (h.stands a).prints

theorem StandsFor.made {j : Json} {a : α} (h : StandsFor read j a) (make : α → β) :
    StandsFor (fun room j => (read room j).map make) j (make a) where
  prints := h.prints
  reads hroom := by
    rw [h.reads hroom]
    rfl

/-- A reader followed by a constructor. -/
theorem Inverts.form (h : Inverts read write) (make : α → β) :
    Form (fun room j => (read room j).map make) make write where
  stands a := (h.stands a).made make
  fits hread := by
    obtain ⟨a, ha, rfl⟩ := Option.map_eq_some_iff.mp hread
    exact ⟨a, rfl, h.fits ha⟩

/-- If every value is made in one way, undoing the writer of the parts undoes
    the writer of the values. -/
theorem Form.inverts {make : β → α} {writeParts : β → Json} (h : Form read make writeParts)
    (parts : α → β) (hmake : ∀ a, make (parts a) = a) (hparts : ∀ b, parts (make b) = b) :
    Inverts read fun a => writeParts (parts a) where
  stands a := by
    have hstands := h.stands (parts a)
    rw [hmake] at hstands
    exact hstands
  fits hread := by
    obtain ⟨b, rfl, hb⟩ := h.fits hread
    rw [hparts]
    exact hb

/-- For a shape without containers the room does not matter. -/
theorem inverts_of_depth_zero (hprints : ∀ a, (write a).Printable)
    (hdepth : ∀ a, (write a).depth = 0) (hreads : ∀ room a, read room (write a) = some a) :
    Inverts read write where
  stands a := ⟨hprints a, fun {room} _ => hreads room a⟩
  fits _ := by
    rw [hdepth]
    exact Nat.zero_le _

end

/-! ### Scalars -/

theorem below?_ofNat {bound n : Nat} (h : n < bound) : below? bound (.ofNat n) = some n := by
  simp [below?, int?, ofNat, ofInt, h]

theorem inverts_uint16 : Inverts readUInt16 fun n => .ofNat n.toNat := by
  refine inverts_of_depth_zero (fun n => .num _) (fun n => rfl) ?_
  intro room n
  simp [readUInt16, below?_ofNat n.toNat_lt_size]

theorem inverts_uint32 : Inverts readUInt32 fun n => .ofNat n.toNat := by
  refine inverts_of_depth_zero (fun n => .num _) (fun n => rfl) ?_
  intro room n
  simp [readUInt32, below?_ofNat n.toNat_lt_size]

theorem inverts_uint64 : Inverts readUInt64 fun n => .ofNat n.toNat := by
  refine inverts_of_depth_zero (fun n => .num _) (fun n => rfl) ?_
  intro room n
  simp [readUInt64, below?_ofNat n.toNat_lt_size]

theorem inverts_int32 : Inverts readInt32 fun n => .ofInt n.toInt := by
  refine inverts_of_depth_zero (fun n => .num _) (fun n => rfl) ?_
  intro room n
  have hlow := n.le_toInt
  have hhigh := n.toInt_lt
  have hrange : -2147483648 ≤ n.toInt ∧ n.toInt ≤ 2147483647 := by omega
  simp [readInt32, int?, ofInt, hrange]

theorem inverts_bool : Inverts readBool .bool :=
  inverts_of_depth_zero .bool (fun _ => rfl) fun _ _ => rfl

theorem text?_escape (s : String) : text? (escape s.toList) = some s := by
  simp [text?, unescape_escape]

theorem inverts_string : Inverts readString .ofString := by
  refine inverts_of_depth_zero (fun s => .str (quotable_escape _)) (fun s => rfl) ?_
  intro room s
  exact text?_escape s

variable {α β : Type} {read : Reader α} {write : α → Json}

/-! ### Options, lists, pairs -/

theorem Inverts.option (h : Inverts read write) (hnull : ∀ a, write a ≠ .null) :
    Inverts (readOption read) (ofOption write) where
  stands a := by
    cases a with
    | none => exact ⟨.null, fun _ => rfl⟩
    | some a =>
      refine ⟨h.prints a, ?_⟩
      intro room hroom
      show readOption read room (write a) = some (some a)
      unfold readOption
      -- Only a value that is itself written as `null` would be taken for none.
      split
      · next he => exact absurd he (hnull a)
      · rw [h.reads hroom]
        rfl
  fits {room j a} hread := by
    unfold readOption at hread
    split at hread
    · obtain rfl := Option.some.inj hread
      exact Nat.zero_le _
    · obtain ⟨a', ha', rfl⟩ := Option.map_eq_some_iff.mp hread
      exact h.fits ha'

theorem StandsFor.list {l : List α} (h : ∀ a ∈ l, StandsFor read (write a) a) :
    StandsFor (readList read) (ofList write l) l where
  prints := by
    refine .arr ?_
    intro j hj
    obtain ⟨a, ha, rfl⟩ := List.mem_map.mp hj
    exact (h a ha).prints
  reads {room} hroom := by
    obtain ⟨inner, rfl, hitems⟩ := (depth_arr_le_iff _ _).mp hroom
    have hread : ∀ a ∈ l, (read inner ∘ write) a = some (id a) := by
      intro a ha
      exact (h a ha).reads (hitems (write a) (List.mem_map_of_mem ha))
    show (l.map write).mapM (read inner) = some l
    rw [List.mapM_map, mapM_eq_map hread, List.map_id]

theorem readList_cases {room : Nat} {j : Json} {l : List α} (h : readList read room j = some l) :
    ∃ inner, room = inner + 1 ∧ ∀ a ∈ l, ∃ item, read inner item = some a := by
  unfold readList at h
  split at h
  · next inner items =>
    refine ⟨inner, rfl, ?_⟩
    intro a ha
    obtain ⟨item, -, hitem⟩ := exists_of_mem_mapM h a ha
    exact ⟨item, hitem⟩
  · cases h

theorem Inverts.list (h : Inverts read write) : Inverts (readList read) (ofList write) where
  stands l := .list fun a _ => h.stands a
  fits {room j l} hread := by
    obtain ⟨inner, rfl, hitems⟩ := readList_cases hread
    refine (depth_arr_le_iff _ _).mpr ⟨inner, rfl, ?_⟩
    intro j hj
    obtain ⟨a, ha, rfl⟩ := List.mem_map.mp hj
    obtain ⟨item, hitem⟩ := hitems a ha
    exact h.fits hitem

theorem readPair_cases {read' : Reader β} {room : Nat} {j : Json} {e : α × β}
    (h : readPair read read' room j = some e) :
    ∃ inner a b, room = inner + 1 ∧ read inner a = some e.1 ∧ read' inner b = some e.2 := by
  unfold readPair at h
  split at h
  · next inner a b =>
    simp only [Option.bind_eq_bind, Option.pure_def, Option.bind_eq_some_iff,
      Option.some.injEq] at h
    obtain ⟨x, hx, y, hy, rfl⟩ := h
    exact ⟨inner, a, b, rfl, hx, hy⟩
  · cases h

theorem Inverts.pair (h : Inverts read write) {read' : Reader β} {write' : β → Json}
    (h' : Inverts read' write') :
    Inverts (readPair read read') fun e => .arr [write e.1, write' e.2] where
  stands e := by
    refine ⟨.arr ?_, ?_⟩
    · simp [h.prints e.1, h'.prints e.2]
    · intro room hroom
      obtain ⟨inner, rfl, hitems⟩ := (depth_arr_le_iff _ _).mp hroom
      have hfirst := h.reads (hitems (write e.1) (by simp))
      have hsecond := h'.reads (hitems (write' e.2) (by simp))
      simp [readPair, hfirst, hsecond]
  fits {room j e} hread := by
    obtain ⟨inner, a, b, rfl, hfirst, hsecond⟩ := readPair_cases hread
    refine (depth_arr_le_iff _ _).mpr ⟨inner, rfl, ?_⟩
    simp [h.fits hfirst, h'.fits hsecond]

/-! ### Maps keyed by ids -/

theorem numeral?_toDigits (n : UInt32) : numeral? (Nat.toDigits 10 n.toNat) = some n := by
  obtain ⟨d, rest, hd, hzero⟩ := toDigits_eq_cons n.toNat
  have hall : (Nat.toDigits 10 n.toNat).all isDigit = true := by
    rw [List.all_eq_true]
    intro c hc
    exact isDigit_of_mem_toDigits hc
  -- The only numeral that starts with a zero is zero itself.
  have hplain : d ≠ '0' ∨ rest = [] := by
    by_cases h : d = '0'
    · right
      rw [hzero h, Nat.toDigits_zero] at hd
      exact (List.cons.inj hd).2.symm
    · exact Or.inl h
  have hvalue := digitsValue_toDigits n.toNat
  rw [hd] at hall hvalue ⊢
  simp only [numeral?]
  rw [hvalue, if_pos ⟨hall, hplain, n.toNat_lt_size⟩, UInt32.ofNat_toNat]

theorem readEntry_ofEntry {κ : Type} {key : UInt32 → κ} {number : κ → UInt32} {room : Nat}
    {e : κ × α} (hkey : key (number e.1) = e.1) (hvalue : read room (write e.2) = some e.2) :
    readEntry key read room (ofEntry number write e) = some e := by
  simp [readEntry, ofEntry, numeral?_toDigits, hvalue, hkey]

theorem fits_of_readEntry {κ : Type} {key : UInt32 → κ} {room : Nat} {member : Lexeme × Json}
    {e : κ × α} (h : Inverts read write) (hread : readEntry key read room member = some e) :
    (write e.2).depth ≤ room := by
  simp only [readEntry, Option.bind_eq_bind, Option.pure_def, Option.bind_eq_some_iff,
    Option.some.injEq] at hread
  obtain ⟨k, -, v, hv, rfl⟩ := hread
  exact h.fits hv

theorem Inverts.map {κ : Type} [DecidableEq κ] [Coded κ] (h : Inverts read write)
    (key : UInt32 → κ) (number : κ → UInt32) (hkey : ∀ k, key (number k) = k) :
    Inverts (readMap key read) (ofMap number write) where
  stands m := by
    refine ⟨.obj ?_ ?_, ?_⟩
    · intro member hmember
      obtain ⟨e, -, rfl⟩ := List.mem_map.mp hmember
      have htext : (ofEntry number write e).1 = Nat.toDigits 10 (number e.1).toNat := by
        simp [ofEntry]
      rw [htext]
      exact quotable_toDigits _
    · intro member hmember
      obtain ⟨e, -, rfl⟩ := List.mem_map.mp hmember
      exact h.prints e.2
    · intro room hroom
      obtain ⟨inner, rfl, hmembers⟩ := (depth_obj_le_iff _ _).mp hroom
      have hread : ∀ e ∈ m.entries, (readEntry key read inner ∘ ofEntry number write) e =
          some (id e) := by
        intro e he
        exact readEntry_ofEntry (hkey e.1) (h.reads (hmembers _ (List.mem_map_of_mem he)))
      show ((m.entries.map (ofEntry number write)).mapM (readEntry key read inner)).map
        OrderedMap.ofList = some m
      rw [List.mapM_map, mapM_eq_map hread, List.map_id, Option.map_some,
        OrderedMap.ofList_entries]
  fits {room j m} hread := by
    unfold readMap at hread
    split at hread
    · next inner members =>
      obtain ⟨entries, hentries, rfl⟩ := Option.map_eq_some_iff.mp hread
      refine (depth_obj_le_iff _ _).mpr ⟨inner, rfl, ?_⟩
      intro member hmember
      obtain ⟨e, he, rfl⟩ := List.mem_map.mp hmember
      -- A repeated key keeps one of its values, and each was read in the same room.
      obtain ⟨read, -, hread⟩ := exists_of_mem_mapM hentries e (OrderedMap.mem_of_mem_ofList he)
      exact fits_of_readEntry h hread
    · cases hread

/-! ### Records -/

theorem named?_ofMembers (members : List (String × Json)) :
    named? (members.map fun m => (escape m.1.toList, m.2)) = some members := by
  unfold named?
  rw [List.mapM_map]
  have hread : ∀ m ∈ members, ((fun m : Lexeme × Json => (text? m.1).map fun name => (name, m.2)) ∘
      fun m : String × Json => (escape m.1.toList, m.2)) m = some (id m) := by
    intro m _
    simp [text?_escape]
  rw [mapM_eq_map hread, List.map_id]

theorem member?_of_mem {members : List (String × Json)} (hnames : (members.map Prod.fst).Nodup)
    {m : String × Json} (hm : m ∈ members) : member? members m.1 = some (some m.2) := by
  -- The names are distinct, so no other member has this one.
  have honly : members.filter (fun m' => m'.1 = m.1) = [m] := by
    induction members with
    | nil => cases hm
    | cons m' rest ih =>
      obtain ⟨hfresh, hrest⟩ := List.nodup_cons.mp hnames
      rcases List.mem_cons.mp hm with rfl | hm
      · have hother : rest.filter (fun m' => m'.1 = m.1) = [] := by
          rw [List.filter_eq_nil_iff]
          intro x hx
          simp only [decide_eq_true_eq]
          intro he
          exact hfresh (he ▸ List.mem_map_of_mem hx)
        rw [List.filter_cons_of_pos (by simp), hother]
      · have hne : m'.1 ≠ m.1 := fun he => hfresh (he ▸ List.mem_map_of_mem hm)
        rw [List.filter_cons_of_neg (by simp [hne]), ih hrest hm]
  unfold member?
  rw [honly]

/-- The fields of a record that was written are the values that were written. -/
theorem fields?_ofMembers {members : List (String × Json)}
    (hnames : (members.map Prod.fst).Nodup) :
    fields? (members.map Prod.fst) (.ofMembers members) = some (members.map fun m => some m.2) := by
  have hread : ∀ m ∈ members, (member? members ∘ Prod.fst) m = some (some m.2) :=
    fun m hm => member?_of_mem hnames hm
  show (named? (members.map fun m => (escape m.1.toList, m.2))).bind
    (fun ms => (members.map Prod.fst).mapM (member? ms)) = _
  rw [named?_ofMembers, Option.bind_some, List.mapM_map, mapM_eq_map hread]

/-- An object needs room for itself and, inside, for each of its members. -/
theorem depth_ofMembers_le_iff (members : List (String × Json)) (room : Nat) :
    (ofMembers members).depth ≤ room ↔
      ∃ inner, room = inner + 1 ∧ ∀ m ∈ members, m.2.depth ≤ inner := by
  unfold ofMembers
  simp only [depth_obj_le_iff, List.forall_mem_map]

theorem printable_ofMembers {members : List (String × Json)} (h : ∀ m ∈ members, m.2.Printable) :
    (ofMembers members).Printable := by
  refine .obj ?_ ?_
  · intro m hm
    obtain ⟨m', -, rfl⟩ := List.mem_map.mp hm
    exact quotable_escape _
  · intro m hm
    obtain ⟨m', hm', rfl⟩ := List.mem_map.mp hm
    exact h m' hm'

/-- A record is read back if its fields are. -/
theorem StandsFor.record {names : List String} {build : Nat → List (Option Json) → Option α}
    {members : List (String × Json)} {a : α} (hnames : members.map Prod.fst = names)
    (hdistinct : names.Nodup) (hprints : ∀ m ∈ members, m.2.Printable)
    (hreads : ∀ room, (∀ m ∈ members, m.2.depth ≤ room) →
      build room (members.map fun m => some m.2) = some a) :
    StandsFor (readRecord names build) (.ofMembers members) a where
  prints := printable_ofMembers hprints
  reads {room} hroom := by
    obtain ⟨inner, rfl, hmembers⟩ := (depth_ofMembers_le_iff _ _).mp hroom
    subst hnames
    show (fields? (members.map Prod.fst) (.ofMembers members)).bind (build inner) = some a
    rw [fields?_ofMembers hdistinct]
    exact hreads inner hmembers

theorem readRecord_cases {names : List String} {build : Nat → List (Option Json) → Option α}
    {room : Nat} {j : Json} {a : α} (h : readRecord names build room j = some a) :
    ∃ inner fields, room = inner + 1 ∧ build inner fields = some a := by
  unfold readRecord at h
  split at h
  · next inner =>
    obtain ⟨fields, -, hbuild⟩ := Option.bind_eq_some_iff.mp h
    exact ⟨inner, fields, rfl, hbuild⟩
  · cases h

theorem Inverts.record {names : List String} {build : Nat → List (Option Json) → Option α}
    {members : α → List (String × Json)} (hnames : ∀ a, (members a).map Prod.fst = names)
    (hdistinct : names.Nodup) (hprints : ∀ a, ∀ m ∈ members a, m.2.Printable)
    (hreads : ∀ room a, (∀ m ∈ members a, m.2.depth ≤ room) →
      build room ((members a).map fun m => some m.2) = some a)
    (hfits : ∀ room fields a, build room fields = some a → ∀ m ∈ members a, m.2.depth ≤ room) :
    Inverts (readRecord names build) fun a => .ofMembers (members a) where
  stands a := .record (hnames a) hdistinct (hprints a) fun room h => hreads room a h
  fits {room j a} hread := by
    obtain ⟨inner, fields, rfl, hbuild⟩ := readRecord_cases hread
    exact (depth_ofMembers_le_iff _ _).mpr ⟨inner, rfl, hfits inner fields a hbuild⟩

theorem Inverts.required (h : Inverts read write) {room : Nat} {field : Option Json} {a : α}
    (hread : required read room field = some a) : (write a).depth ≤ room := by
  obtain ⟨j, -, hj⟩ := Option.bind_eq_some_iff.mp hread
  exact h.fits hj

theorem Inverts.optional (h : Inverts (readOption read) (ofOption write)) {room : Nat}
    {field : Option Json} {a : Option α} (hread : optional read room field = some a) :
    (ofOption write a).depth ≤ room := by
  cases field with
  | none =>
    obtain rfl := Option.some.inj hread
    exact Nat.zero_le _
  | some j => exact h.fits hread

/-! ### Variants -/

/-- The payload of a variant takes one container less than the variant. -/
theorem depth_tagged_le_iff (name : String) (payload : Json) (room : Nat) :
    (ofMembers [(name, payload)]).depth ≤ room ↔
      ∃ inner, room = inner + 1 ∧ payload.depth ≤ inner := by
  rw [depth_ofMembers_le_iff]
  simp

theorem depth_tagged (name : String) {payload : Json} {room : Nat} (h : payload.depth ≤ room) :
    (ofMembers [(name, payload)]).depth ≤ room + 1 :=
  (depth_tagged_le_iff name payload (room + 1)).mpr ⟨room, rfl, h⟩

theorem printable_tagged (name : String) {payload : Json} (h : payload.Printable) :
    (ofMembers [(name, payload)]).Printable := by
  apply printable_ofMembers
  simpa using h

section

variable {unit : String → Option α} {tagged : String → Reader α} {name : String} {a : α}

theorem StandsFor.plain (h : unit name = some a) :
    StandsFor (readVariant unit tagged) (.ofString name) a where
  prints := inverts_string.prints name
  reads _ := by
    show (text? (escape name.toList)).bind unit = some a
    rw [text?_escape, Option.bind_some, h]

theorem StandsFor.carrying {payload : Json} (hname : unit name = none)
    (h : StandsFor (tagged name) payload a) :
    StandsFor (readVariant unit tagged) (.ofMembers [(name, payload)]) a where
  prints := printable_tagged name h.prints
  reads {room} hroom := by
    obtain ⟨inner, rfl, hpayload⟩ := (depth_tagged_le_iff name payload room).mp hroom
    have hread := h.reads hpayload
    show readVariant unit tagged (inner + 1) (.obj [(escape name.toList, payload)]) = some a
    simp [readVariant, text?_escape, hname, hread]

/-- Names alone are read back if each leads to its value. -/
theorem inverts_names {label : α → String} (h : ∀ a, unit (label a) = some a) :
    Inverts (readVariant unit fun _ _ _ => none) fun a => .ofString (label a) where
  stands a := .plain (h a)
  fits _ := Nat.zero_le _

/-- A reader that is chosen by a test is one of the two. -/
theorem read_ite_cases {c : Prop} [Decidable c] {read₁ read₂ : Reader α} {room : Nat} {j : Json}
    (h : (if c then read₁ else read₂) room j = some a) :
    read₁ room j = some a ∨ read₂ room j = some a := by
  split at h
  · exact Or.inl h
  · exact Or.inr h

/-- A variant that is read is one of the plain names, or comes with a payload
    that was read with the room inside. -/
theorem readVariant_cases {room : Nat} {j : Json} (h : readVariant unit tagged room j = some a) :
    (∃ name, unit name = some a) ∨
      ∃ name inner payload, room = inner + 1 ∧ tagged name inner payload = some a := by
  unfold readVariant at h
  split at h
  · obtain ⟨name, -, hname⟩ := Option.bind_eq_some_iff.mp h
    exact Or.inl ⟨name, hname⟩
  · next inner l payload =>
    split at h
    · cases h
    · next name _ =>
      split at h
      · next a' hname =>
        -- A plain name may also carry `null`.
        split at h
        · exact Or.inl ⟨name, h ▸ hname⟩
        · cases h
      · exact Or.inr ⟨name, inner, payload, rfl, h⟩
  · cases h

end

end Json

end SsaFlow
