import ScaleWatch.Json.Shape
import ScaleWatch.Proofs.Outcome

/-!
# What shapes accept

For each shape it is said which outlines it accepts, and as what.  A record is filled in member by
member, in the order in which an object is written.  If setting one field leaves every other as it
was, the order does not matter: the record might as well be filled in field by field, each from the
one member that bears its name.  `fillFromMembers_eq_ok_iff` says so, and what the other members of
the object may be.
-/

namespace ScaleWatch.Json.Shape

/-! ### Single values -/

section Values

variable {α : Type} {o : Outline}

theorem text_eq_ok_iff {t : List Char} : text o = .ok t ↔ o = .string (some t) := by
  unfold text
  split
  · simp
  · next other =>
    constructor
    · rintro ⟨⟩
    · rintro rfl
      exact absurd rfl (other t)

theorem parsed_eq_ok_iff {f : List Char → Option α} {a : α} :
    parsed f o = .ok a ↔ ∃ t, f t = some a ∧ o = .string (some t) := by
  simp only [parsed, bind_eq_ok_iff, text_eq_ok_iff]
  constructor
  · rintro ⟨t, said, h⟩
    split at h
    · next spells =>
      cases h
      exact ⟨t, spells, said⟩
    · cases h
  · rintro ⟨t, spells, said⟩
    exact ⟨t, said, by rw [spells]⟩

theorem word_eq_ok_iff {f : List Char → Option α} {a : α} :
    word f o = .ok a ↔
      ∃ t, f t = some a ∧ (o = .string (some t) ∨ o = .object [(some t, .null)] true) := by
  unfold word
  split
  · simp [parsed_eq_ok_iff]
  · next name v more closed =>
    constructor
    · intro h
      split at h
      · cases h
      · next spells =>
        split at h
        · next alone =>
          cases h
          rw [Bool.and_eq_true, List.isEmpty_iff] at alone
          obtain ⟨rfl, rfl⟩ := alone
          exact ⟨name, spells, .inr rfl⟩
        · cases h
      · cases h
    · rintro ⟨t, spells, same | same⟩
      · cases same
      · cases same
        rw [spells]
        rfl
  · next text object =>
    constructor
    · rintro ⟨⟩
    · rintro ⟨t, -, rfl | rfl⟩
      · exact absurd rfl (text _)
      · exact absurd rfl (object _ _ _ _)

theorem natural_eq_ok_iff {limit n : Nat} :
    natural limit o = .ok n ↔ n ≤ limit ∧ ∃ finite, o = .number ⟨some n, finite⟩ := by
  constructor
  · intro h
    unfold natural at h
    split at h
    · split at h
      · next inside =>
        cases h
        exact ⟨inside, _, rfl⟩
      · cases h
    · cases h
  · rintro ⟨inside, finite, rfl⟩
    rw [natural, if_pos inside]

theorem optional_eq_ok_iff {shape : Shape α} (refuses : ∀ a, shape .null ≠ .ok a) {a : Option α} :
    optional shape o = .ok a ↔ o = .null ∧ none = a ∨ ∃ b, shape o = .ok b ∧ some b = a := by
  unfold optional
  split
  · simp [refuses]
  · next present =>
    have given : o ≠ .null := present
    simp only [map_eq_ok_iff, given, false_and, false_or]

end Values

section Members

variable {σ : Type}

/-! ### Fields that do not meet -/

/-- Setting one of two fields leaves the other as it was. -/
structure Field.Apart (f g : Field σ) : Prop where
  name : f.name ≠ g.name
  isSet_left : ∀ {v s s'}, g.set v s = .ok s' → f.isSet s' = f.isSet s
  isSet_right : ∀ {v s s'}, f.set v s = .ok s' → g.isSet s' = g.isSet s
  comm : ∀ {v w s s'}, (f.set v s >>= g.set w) = .ok s' ↔ (g.set w s >>= f.set v) = .ok s'

/-- Fields that may be filled in in any order. -/
structure Independent (fields : List (Field σ)) : Prop where
  apart : fields.Pairwise Field.Apart
  isSet_of_set : ∀ f ∈ fields, ∀ {v s s'}, f.set v s = .ok s' → f.isSet s' = true

theorem Independent.tail {f : Field σ} {fields : List (Field σ)} (h : Independent (f :: fields)) :
    Independent fields :=
  ⟨h.apart.of_cons, fun g inside => h.isSet_of_set g (List.mem_cons_of_mem f inside)⟩

/-! ### Filling in field by field -/

/-- The values of the members with a name, in order. -/
def valuesOf (name : String) (members : List (Option (List Char) × Outline)) : List Outline :=
  (members.filter (·.1 = some name.toList)).map (·.2)

/-- From a state, filling in the fields leads to another.  Each is set at most once. -/
inductive Fills (members : List (Option (List Char) × Outline)) : List (Field σ) → σ → σ → Prop
  | done {s} : Fills members [] s s
  | absent {f fields s s'} (none : valuesOf f.name members = [])
    (later : Fills members fields s s') : Fills members (f :: fields) s s'
  | once {f fields v s s₁ s'} (one : valuesOf f.name members = [v]) (fresh : f.isSet s = false)
    (set : f.set v s = .ok s₁) (later : Fills members fields s₁ s') :
    Fills members (f :: fields) s s'

section Fills

variable {members members' : List (Option (List Char) × Outline)} {fields : List (Field σ)}
  {s s' : σ}

theorem Fills.congr (same : ∀ f ∈ fields, valuesOf f.name members' = valuesOf f.name members)
    (fills : Fills members fields s s') : Fills members' fields s s' := by
  induction fills with
  | done => exact .done
  | absent none _ ih =>
    exact .absent ((same _ List.mem_cons_self).trans none)
      (ih fun f inside => same f (List.mem_cons_of_mem _ inside))
  | once one fresh set _ ih =>
    exact .once ((same _ List.mem_cons_self).trans one) fresh set
      (ih fun f inside => same f (List.mem_cons_of_mem _ inside))

theorem fills_congr (same : ∀ f ∈ fields, valuesOf f.name members' = valuesOf f.name members) :
    Fills members' fields s s' ↔ Fills members fields s s' :=
  ⟨.congr fun f inside => (same f inside).symm, .congr same⟩

theorem fills_nil_iff : Fills [] fields s s' ↔ s = s' := by
  induction fields with
  | nil =>
    constructor
    · rintro ⟨⟩
      rfl
    · rintro rfl
      exact .done
  | cons f fields ih =>
    constructor
    · rintro (_ | ⟨-, fills⟩ | ⟨⟨⟩, -, -, -⟩)
      exact ih.1 fills
    · exact fun same => .absent rfl (ih.2 same)

/-- One more value of a field is a value that the field is set from, before all others. -/
theorem fills_cons_iff {f : Field σ} {v : Outline} (independent : Independent fields)
    (inside : f ∈ fields) (more : valuesOf f.name members' = v :: valuesOf f.name members)
    (same : ∀ g ∈ fields, g.name ≠ f.name → valuesOf g.name members' = valuesOf g.name members) :
    Fills members' fields s s' ↔
      f.isSet s = false ∧ ∃ s₁, f.set v s = .ok s₁ ∧ Fills members fields s₁ s' := by
  induction fields generalizing s with
  | nil => cases inside
  | cons g fields ih =>
    obtain ⟨apart, -⟩ := List.pairwise_cons.1 independent.apart
    rcases List.mem_cons.1 inside with rfl | inside
    · have later : ∀ g ∈ fields, valuesOf g.name members' = valuesOf g.name members :=
        fun g inside => same g (List.mem_cons_of_mem f inside) (apart g inside).name.symm
      constructor
      · rintro (_ | ⟨none, -⟩ | ⟨one, fresh, set, fills⟩)
        · rw [more] at none
          cases none
        · obtain ⟨rfl, none⟩ := List.cons.inj (more.symm.trans one)
          exact ⟨fresh, _, set, .absent none ((fills_congr later).1 fills)⟩
      · rintro ⟨fresh, s₁, set, _ | ⟨none, fills⟩ | ⟨-, again, -, -⟩⟩
        · exact .once (more.trans (congrArg _ none)) fresh set ((fills_congr later).2 fills)
        · rw [independent.isSet_of_set f List.mem_cons_self set] at again
          cases again
    · -- The field that comes first is set either way, and setting it and `f` can be exchanged.
      have here := apart f inside
      have unchanged := same g List.mem_cons_self here.name
      have later := fun {s} => ih (s := s) independent.tail inside fun g inside =>
        same g (List.mem_cons_of_mem _ inside)
      constructor
      · rintro (_ | ⟨none, fills⟩ | ⟨one, fresh, set, fills⟩)
        · obtain ⟨fresh, s₁, set, fills⟩ := later.1 fills
          exact ⟨fresh, s₁, set, .absent (unchanged.symm.trans none) fills⟩
        · obtain ⟨fresh', s₂, set', fills⟩ := later.1 fills
          obtain ⟨s₁', first, second⟩ :=
            bind_eq_ok_iff.1 (here.comm.1 (bind_eq_ok_iff.2 ⟨_, set, set'⟩))
          exact ⟨(here.isSet_right set).symm.trans fresh', s₁', first,
            .once (unchanged.symm.trans one) ((here.isSet_left first).trans fresh) second fills⟩
      · rintro ⟨fresh, s₁, set, _ | ⟨none, fills⟩ | ⟨one, fresh', set', fills⟩⟩
        · exact .absent (unchanged.trans none) (later.2 ⟨fresh, s₁, set, fills⟩)
        · obtain ⟨s₁', first, second⟩ :=
            bind_eq_ok_iff.1 (here.comm.2 (bind_eq_ok_iff.2 ⟨_, set, set'⟩))
          exact .once (unchanged.trans one) ((here.isSet_left set).symm.trans fresh') first
            (later.2 ⟨(here.isSet_right first).trans fresh, _, second, fills⟩)

end Fills

/-! ### Filling in member by member -/

/-- A member has a name, and if it is not one of those that are known, a value that is JSON to its
end. -/
def Legible (known : List String) (m : Option (List Char) × Outline) : Prop :=
  ∃ name, m.1 = some name ∧ ((∀ n ∈ known, n.toList ≠ name) → m.2.intact = true)

section FillFromMembers

variable {fields : List (Field σ)} {name : List Char} {v : Outline}
  {members : List (Option (List Char) × Outline)} {s s' : σ}

theorem valuesOf_cons_of_eq {f : Field σ} (named : f.name.toList = name) :
    valuesOf f.name ((some name, v) :: members) = v :: valuesOf f.name members := by
  simp [valuesOf, named]

theorem valuesOf_cons_of_ne {f : Field σ} (other : f.name.toList ≠ name) :
    valuesOf f.name ((some name, v) :: members) = valuesOf f.name members := by
  simp [valuesOf, other.symm]

theorem fillFromMembers_of_find {f : Field σ}
    (found : fields.find? (·.name.toList = name) = some f) :
    fillFromMembers fields ((some name, v) :: members) s = .ok s' ↔
      f.isSet s = false ∧
        ∃ s₁, f.set v s = .ok s₁ ∧ fillFromMembers fields members s₁ = .ok s' := by
  rw [fillFromMembers, found]
  rcases Bool.eq_false_or_eq_true (f.isSet s) with met | fresh
  · simp only [met, if_true]
    exact ⟨fun h => (nomatch h), fun h => (nomatch h.1)⟩
  · simp only [fresh, Bool.false_eq_true, if_false, true_and]
    exact bind_eq_ok_iff

/-- An object fills in a record if its members do so field by field. -/
theorem fillFromMembers_eq_ok_iff (independent : Independent fields) :
    fillFromMembers fields members s = .ok s' ↔
      (∀ m ∈ members, Legible (fields.map (·.name)) m) ∧ Fills members fields s s' := by
  induction members generalizing s with
  | nil =>
    have nothing : fillFromMembers fields [] s = .ok s' ↔ s = s' := by
      simp [fillFromMembers]
    rw [nothing, fills_nil_iff]
    simp
  | cons m members ih =>
    obtain ⟨_ | name, v⟩ := m
    · constructor
      · rintro ⟨⟩
      · rintro ⟨legible, -⟩
        obtain ⟨name, named, -⟩ := legible _ List.mem_cons_self
        cases named
    rw [List.forall_mem_cons]
    cases found : fields.find? (·.name.toList = name) with
    | some f =>
      have inside := List.mem_of_find?_eq_some found
      have named : f.name.toList = name := by simpa using List.find?_some found
      have legible : Legible (fields.map (·.name)) (some name, v) :=
        ⟨name, rfl, fun unknown => absurd named (unknown f.name (List.mem_map_of_mem inside))⟩
      have others : ∀ g ∈ fields, g.name ≠ f.name →
          valuesOf g.name ((some name, v) :: members) = valuesOf g.name members :=
        fun g _ ne => valuesOf_cons_of_ne fun same =>
          ne (String.toList_inj.1 (same.trans named.symm))
      rw [fillFromMembers_of_find found,
        fills_cons_iff independent inside (valuesOf_cons_of_eq named) others]
      simp only [ih, legible, true_and]
      exact ⟨fun ⟨fresh, s₁, set, all, fills⟩ => ⟨all, fresh, s₁, set, fills⟩,
        fun ⟨all, fresh, s₁, set, fills⟩ => ⟨fresh, s₁, set, all, fills⟩⟩
    | none =>
      have unknown : ∀ f ∈ fields, f.name.toList ≠ name := by
        simpa using List.find?_eq_none.1 found
      have legible : Legible (fields.map (·.name)) (some name, v) ↔ v.intact = true :=
        ⟨fun ⟨_, named, intact⟩ => intact (Option.some.inj named ▸ List.forall_mem_map.2 unknown),
          fun intact => ⟨name, rfl, fun _ => intact⟩⟩
      rw [fillFromMembers, found, legible,
        fills_congr fun f inside => valuesOf_cons_of_ne (unknown f inside)]
      cases v.intact with
      | true => simp only [if_true, true_and, ih]
      | false => simp

end FillFromMembers

/-! ### Filling in from items -/

/-- From a state, setting the fields from the items in order leads to another.  Only fields that are
optional may be left over. -/
inductive FillsInOrder : List (Field σ) → List Outline → σ → σ → Prop
  | done {s} : FillsInOrder [] [] s s
  | ended {f fields s s'} (optional : f.isOptional = true)
    (later : FillsInOrder fields [] s s') : FillsInOrder (f :: fields) [] s s'
  | next {f fields v items s s₁ s'} (set : f.set v s = .ok s₁)
    (later : FillsInOrder fields items s₁ s') : FillsInOrder (f :: fields) (v :: items) s s'

theorem fillFromItems_eq_ok_iff {fields : List (Field σ)} {items : List Outline} {s s' : σ} :
    fillFromItems true fields items s = .ok (s', []) ↔ FillsInOrder fields items s s' := by
  induction fields generalizing items s with
  | nil =>
    rw [fillFromItems]
    constructor
    · rintro ⟨⟩
      exact .done
    · rintro ⟨⟩
      rfl
  | cons f fields ih =>
    cases items with
    | nil =>
      rw [fillFromItems, if_pos rfl]
      constructor
      · intro h
        split at h
        · next optional => exact .ended optional (ih.1 h)
        · cases h
      · rintro (_ | ⟨optional, later⟩)
        rw [if_pos optional, ih.2 later]
    | cons v items =>
      rw [fillFromItems, bind_eq_ok_iff]
      constructor
      · rintro ⟨s₁, set, h⟩
        exact .next set (ih.1 h)
      · rintro (_ | _ | ⟨set, later⟩)
        exact ⟨_, set, ih.2 later⟩

end Members

/-! ### Records and texts -/

section Records

variable {α σ : Type} {fields : List (Field σ)} {start : σ} {finish : σ → Option α} {a : α}
  {closed : Bool}

theorem record_object_eq_ok_iff {members : List (Option (List Char) × Outline)}
    (independent : Independent fields) :
    record fields start finish (.object members closed) = .ok a ↔
      closed = true ∧ (∀ m ∈ members, Legible (fields.map (·.name)) m) ∧
        ∃ s, Fills members fields start s ∧ finish s = some a := by
  rw [record, bind_eq_ok_iff]
  simp only [fillFromMembers_eq_ok_iff independent]
  cases closed with
  | false => simp
  | true => simp only [if_true, elim_eq_ok_iff, true_and, and_assoc, exists_and_left]

theorem record_array_eq_ok_iff {items : List Outline} :
    record fields start finish (.array items closed) = .ok a ↔
      closed = true ∧ ∃ s, FillsInOrder fields items start s ∧ finish s = some a := by
  rw [record, bind_eq_ok_iff]
  simp only [← fillFromItems_eq_ok_iff]
  cases closed with
  | false => simp
  | true =>
    simp only [true_and, Prod.exists]
    constructor
    · rintro ⟨s, _ | _, filled, h⟩
      · exact ⟨s, filled, elim_eq_ok_iff.1 h⟩
      · cases h
    · rintro ⟨s, filled, finished⟩
      exact ⟨s, [], filled, elim_eq_ok_iff.2 finished⟩

/-- The text holds one value, of which it is the outline, and nothing else. -/
def IsTextOf (t : List Char) (o : Outline) : Prop :=
  ∃ rest, Outline.read t = (o, some rest) ∧ Outline.skipSpace rest = []

theorem decode_eq_ok_iff {shape : Shape α} {t : List Char} :
    shape.decode t = .ok a ↔ ∃ o, IsTextOf t o ∧ shape o = .ok a := by
  rw [decode]
  constructor
  · intro h
    obtain ⟨a', said, h⟩ := bind_eq_ok_iff.1 h
    split at h
    · next blank =>
      cases h
      obtain ⟨rest, left, nothing⟩ := Option.map_eq_some_iff.1 blank
      exact ⟨_, ⟨rest, Prod.ext rfl left, nothing⟩, said⟩
    · cases h
  · rintro ⟨o, ⟨rest, read, nothing⟩, said⟩
    rw [read]
    refine bind_eq_ok_iff.2 ⟨a, said, ?_⟩
    rw [Option.map_some, nothing]

end Records

end ScaleWatch.Json.Shape
