import ScaleWatch.Proofs.Json.Grammar

/-!
# Reading by the grammar

What the grammar of JSON texts derives is read, and nothing else is.  A text that spells a value is
read as that value, whatever follows, if it ends a numeral (`Spells.reads`); where something is read
to its end, the text that was taken spells it (`sound`).  A whole text is one value with white space
around it (`isTextOf_iff`).
-/

namespace ScaleWatch.Json

open Text Outline

/-! ### What is spelled is read -/

/-- The text is read as the value behind white space and in front of whatever ends a numeral, with
two steps for each character. -/
def Reads (t : List Char) (o : Outline) : Prop :=
  ∀ ⦃fuel before rest⦄, Space before → EndsNumeral rest → 2 * t.length ≤ fuel →
    readValue fuel (before ++ (t ++ rest)) = (o, some rest)

section Steps

variable {fuel : Nat} {before t rest : List Char}

theorem readValue_skipSpace (fuel : Nat) (t : List Char) :
    readValue fuel (skipSpace t) = readValue fuel t := by
  cases fuel with
  | zero => rfl
  | succ fuel => rw [readValue, readValue, skipSpace_skipSpace]

theorem readItems_skipSpace (fuel : Nat) (t : List Char) :
    readItems fuel (skipSpace t) = readItems fuel t := by
  cases fuel with
  | zero => rfl
  | succ fuel => rw [readItems, readItems, readValue_skipSpace]

theorem readMembers_skipSpace (fuel : Nat) (t : List Char) :
    readMembers fuel (skipSpace t) = readMembers fuel t := by
  cases fuel with
  | zero => rfl
  | succ fuel => rw [readMembers, readMembers, readName, skipSpace_skipSpace, readName]

theorem readValue_array (space : Space before) (more : ∀ rest, skipSpace t ≠ ']' :: rest) :
    readValue (fuel + 1) (before ++ '[' :: t) =
      (.array (readItems fuel t).1 (readItems fuel t).2.isSome, (readItems fuel t).2) := by
  rw [readValue, skipSpace_space_cons space rfl]
  simp only [readItems_skipSpace]

theorem readValue_object (space : Space before) (more : ∀ rest, skipSpace t ≠ '}' :: rest) :
    readValue (fuel + 1) (before ++ '{' :: t) =
      (.object (readMembers fuel t).1 (readMembers fuel t).2.isSome, (readMembers fuel t).2) := by
  rw [readValue, skipSpace_space_cons space rfl]
  simp only [readMembers_skipSpace]

theorem Item.read {i : Item} (reads : Reads i.place.chars i.value) {c : Char} (mark : IsMark c)
    (enough : 2 * i.text.length ≤ fuel) :
    readValue fuel (i.text ++ c :: rest) = (i.value, some (i.place.after ++ c :: rest)) := by
  have ends := endsNumeral_append i.place.space_after (endsNumeral_cons mark rest)
  rw [text, Padded.text, List.length_append, List.length_append] at enough
  rw [text, Padded.text, List.append_assoc, List.append_assoc]
  exact reads i.place.space_before ends (by omega)

theorem Item.skipSpace_after (i : Item) {c : Char} (mark : IsMark c) :
    skipSpace (i.place.after ++ c :: rest) = c :: rest :=
  skipSpace_space_cons i.place.space_after (not_isSpace_mark mark) rest

theorem Item.readItems_listed {items : List Item} (ne : items ≠ [])
    (each : ∀ i ∈ items, Reads i.place.chars i.value)
    (enough : 2 * (listed (items.map Item.text)).length + 1 ≤ fuel) :
    readItems fuel (listed (items.map Item.text) ++ ']' :: rest) =
      (items.map Item.value, some rest) := by
  induction items generalizing fuel with
  | nil => exact absurd rfl ne
  | cons i more ih =>
    obtain ⟨fuel, rfl⟩ : ∃ f, fuel = f + 1 := ⟨fuel - 1, by omega⟩
    have first := each i List.mem_cons_self
    rw [List.map_cons] at enough ⊢
    by_cases last : more = []
    · subst last
      rw [List.map_nil, listed_singleton] at enough ⊢
      rw [readItems, i.read first (by simp [IsMark]) (by omega)]
      simp only [i.skipSpace_after (c := ']') (by simp [IsMark]), List.map_singleton]
    · rw [listed_cons (mt List.map_eq_nil_iff.1 last)] at enough ⊢
      rw [List.length_append, List.length_cons] at enough
      have later : readItems fuel (listed (more.map Item.text) ++ ']' :: rest) =
          (more.map Item.value, some rest) :=
        ih last (fun i inside => each i (List.mem_cons_of_mem _ inside)) (by omega)
      rw [List.append_assoc, List.cons_append, readItems,
        i.read first (by simp [IsMark]) (by omega)]
      simp only [i.skipSpace_after (c := ',') (by simp [IsMark]), later, List.map_cons]

theorem readName_of_quotes (space : Space before) {said : Option (List Char)}
    (quotes : Quotes t said) : readName (before ++ (t ++ rest)) = some (said, rest) := by
  obtain ⟨inside, pieces, rfl, written, rfl⟩ := quotes.exists_inside
  rw [List.cons_append, List.append_assoc, List.singleton_append, readName,
    skipSpace_space_cons space rfl]
  simp only [written.read, Option.map_some]

/-- What comes before the value of a member is read as its name. -/
theorem Entry.readName_text (e : Entry) (rest : List Char) :
    readName (e.text ++ rest) = some (e.name, e.label.after ++ ':' :: (e.toItem.text ++ rest)) := by
  have joined : e.text ++ rest = e.label.before ++
      (e.label.chars ++ (e.label.after ++ ':' :: (e.toItem.text ++ rest))) := by
    simp [text, Padded.text]
  rw [joined, readName_of_quotes e.label.space_before e.named]

theorem Entry.readMembers_listed {entries : List Entry} (ne : entries ≠ [])
    (each : ∀ e ∈ entries, Reads e.place.chars e.value)
    (enough : 2 * (listed (entries.map Entry.text)).length + 1 ≤ fuel) :
    readMembers fuel (listed (entries.map Entry.text) ++ '}' :: rest) =
      (entries.map Entry.member, some rest) := by
  induction entries generalizing fuel with
  | nil => exact absurd rfl ne
  | cons e more ih =>
    obtain ⟨fuel, rfl⟩ : ∃ f, fuel = f + 1 := ⟨fuel - 1, by omega⟩
    have first := each e List.mem_cons_self
    have colon := fun rest => skipSpace_space_cons e.label.space_after (c := ':') rfl rest
    have shorter : e.toItem.text.length < e.text.length := by
      simp only [text, List.length_append, List.length_cons]
      omega
    rw [List.map_cons] at enough ⊢
    by_cases last : more = []
    · subst last
      rw [List.map_nil, listed_singleton] at enough ⊢
      rw [readMembers, e.readName_text]
      simp only [colon]
      rw [e.toItem.read first (by simp [IsMark]) (by omega)]
      simp only [e.toItem.skipSpace_after (c := '}') (by simp [IsMark]), List.map_singleton, member]
    · rw [listed_cons (mt List.map_eq_nil_iff.1 last)] at enough ⊢
      rw [List.length_append, List.length_cons] at enough
      have later : readMembers fuel (listed (more.map Entry.text) ++ '}' :: rest) =
          (more.map Entry.member, some rest) :=
        ih last (fun e inside => each e (List.mem_cons_of_mem _ inside)) (by omega)
      rw [List.append_assoc, List.cons_append, readMembers, e.readName_text]
      simp only [colon]
      rw [e.toItem.read first (by simp [IsMark]) (by omega)]
      simp only [e.toItem.skipSpace_after (c := ',') (by simp [IsMark]), later, List.map_cons,
        member]

theorem readValue_string (space : Space before) {said : Option (List Char)}
    (quotes : Quotes t said) :
    readValue (fuel + 1) (before ++ (t ++ rest)) = (.string said, some rest) := by
  obtain ⟨inside, pieces, rfl, written, rfl⟩ := quotes.exists_inside
  rw [List.cons_append, List.append_assoc, List.singleton_append, readValue,
    skipSpace_space_cons space rfl]
  simp only [written.read]

theorem readValue_number (space : Space before) (n : Number) (ends : EndsNumeral rest) :
    readValue (fuel + 1) (before ++ (n.chars ++ rest)) = (.number n.literal, some rest) := by
  have read := n.read ends
  obtain ⟨c, t, written, first⟩ := n.exists_cons
  have other : ∀ c', c' ≠ '-' → c'.isDigit = false → c ≠ c' := by
    rintro c' minus letter rfl
    rcases first with same | digit
    · exact minus same
    · rw [letter] at digit
      cases digit
  have visible : isSpace c = false := by
    simp [isSpace, other ' ' (by decide) rfl, other '\t' (by decide) rfl,
      other '\n' (by decide) rfl, other '\r' (by decide) rfl]
  rw [written, List.cons_append] at read ⊢
  rw [readValue, skipSpace_space_cons space visible]
  split
  case h_7 => rw [read]
  all_goals
    rename_i here
    exact absurd (List.cons.inj here).1 (other _ (by decide) rfl)

/-- Items do not begin as an array without items ends. -/
theorem Item.skipSpace_listed {items : List Item} (ne : items ≠ [])
    (each : ∀ i ∈ items, Spells i.place.chars i.value) (rest after : List Char) :
    skipSpace (listed (items.map text) ++ rest) ≠ ']' :: after := by
  rcases items with _ | ⟨i, more⟩
  · exact absurd rfl ne
  obtain ⟨c, u, written, visible, other⟩ := (each i List.mem_cons_self).exists_cons
  obtain ⟨tail, split⟩ := exists_listed_cons i.text (more.map text)
  rw [List.map_cons, split, text, Padded.text, written]
  simp only [List.append_assoc, List.cons_append]
  rw [skipSpace_space_cons i.place.space_before visible]
  exact fun same => other (List.cons.inj same).1

/-- Members do not begin as an object without members ends. -/
theorem Entry.skipSpace_listed {entries : List Entry} (ne : entries ≠ []) (rest after : List Char) :
    skipSpace (listed (entries.map text) ++ rest) ≠ '}' :: after := by
  rcases entries with _ | ⟨e, more⟩
  · exact absurd rfl ne
  obtain ⟨u, written⟩ := e.named.exists_cons
  obtain ⟨tail, split⟩ := exists_listed_cons e.text (more.map text)
  rw [List.map_cons, split, text, Padded.text, written]
  simp only [List.append_assoc, List.cons_append]
  rw [skipSpace_space_cons e.label.space_before rfl]
  rintro ⟨⟩

end Steps

theorem reads_of_succ {t : List Char} {o : Outline} (positive : 0 < t.length)
    (read : ∀ {fuel before rest}, Space before → EndsNumeral rest → 2 * t.length ≤ fuel + 1 →
      readValue (fuel + 1) (before ++ (t ++ rest)) = (o, some rest)) : Reads t o := by
  rintro (_ | fuel) before rest space ends enough
  · omega
  · exact read space ends enough

/-- A value that is written as a word. -/
theorem reads_word {c : Char} {word : List Char} {o : Outline} (visible : isSpace c = false)
    (read : ∀ fuel rest, readValue (fuel + 1) (c :: word ++ rest) = (o, some rest)) :
    Reads (c :: word) o := by
  refine reads_of_succ (Nat.succ_pos _) fun {fuel before rest} space _ _ => ?_
  rw [← readValue_skipSpace, List.cons_append, skipSpace_space_cons space visible]
  exact read fuel rest

/-- What is spelled is read as it is. -/
theorem Spells.reads {t : List Char} {o : Outline} (spells : Spells t o) : Reads t o := by
  induction spells with
  | null => exact reads_word rfl fun _ _ => rfl
  | yes => exact reads_word rfl fun _ _ => rfl
  | no => exact reads_word rfl fun _ _ => rfl
  | number n =>
    exact reads_of_succ (Spells.number n).length_pos fun space ends _ =>
      readValue_number space n ends
  | string quotes =>
    exact reads_of_succ (Spells.string quotes).length_pos fun space _ _ =>
      readValue_string space quotes
  | emptyArray inside =>
    refine reads_of_succ (Nat.succ_pos _) fun {fuel before rest} space _ _ => ?_
    rw [List.cons_append, List.append_assoc, List.singleton_append, readValue,
      skipSpace_space_cons space rfl]
    simp only [skipSpace_space_cons inside (c := ']') rfl]
  | @array items ne each ih =>
    refine reads_of_succ (Nat.succ_pos _) fun {fuel before rest} space _ enough => ?_
    rw [List.length_cons, List.length_append, List.length_singleton] at enough
    rw [List.cons_append, List.append_assoc, List.singleton_append,
      readValue_array space (Item.skipSpace_listed ne each _),
      Item.readItems_listed ne ih (by omega)]
    rfl
  | emptyObject inside =>
    refine reads_of_succ (Nat.succ_pos _) fun {fuel before rest} space _ _ => ?_
    rw [List.cons_append, List.append_assoc, List.singleton_append, readValue,
      skipSpace_space_cons space rfl]
    simp only [skipSpace_space_cons inside (c := '}') rfl]
  | @object entries ne each ih =>
    refine reads_of_succ (Nat.succ_pos _) fun {fuel before rest} space _ enough => ?_
    rw [List.length_cons, List.length_append, List.length_singleton] at enough
    rw [List.cons_append, List.append_assoc, List.singleton_append,
      readValue_object space (Entry.skipSpace_listed ne _),
      Entry.readMembers_listed ne ih (by omega)]
    rfl

/-! ### What is read is spelled -/

theorem quotes_of_readName {t rest : List Char} {name : Option (List Char)}
    (read : readName t = some (name, rest)) :
    ∃ before u, Space before ∧ Quotes u name ∧ t = before ++ (u ++ rest) := by
  obtain ⟨before, space, split⟩ := exists_space t
  unfold readName at read
  split at read
  · next t' here =>
    obtain ⟨⟨pieces, rest'⟩, taken, same⟩ := Option.map_eq_some_iff.1 read
    cases same
    obtain ⟨inside, written, rfl⟩ := readPieces_eq_some_iff.1 taken
    refine ⟨before, _, space, written.quotes, ?_⟩
    rw [split, here, List.cons_append, List.append_assoc, List.singleton_append]
  · cases read

/-- What is read to its end within so many steps is what the text that was taken spells. -/
structure Sound (fuel : Nat) : Prop where
  value : ∀ {t o rest}, readValue fuel t = (o, some rest) →
    ∃ before u, Space before ∧ Spells u o ∧ t = before ++ (u ++ rest)
  items : ∀ {t values rest}, readItems fuel t = (values, some rest) →
    ∃ items : List Item, items ≠ [] ∧ (∀ i ∈ items, Spells i.place.chars i.value) ∧
      items.map Item.value = values ∧ t = listed (items.map Item.text) ++ ']' :: rest
  members : ∀ {t members rest}, readMembers fuel t = (members, some rest) →
    ∃ entries : List Entry, entries ≠ [] ∧ (∀ e ∈ entries, Spells e.place.chars e.value) ∧
      entries.map Entry.member = members ∧ t = listed (entries.map Entry.text) ++ '}' :: rest

section Sound

variable {fuel : Nat} {t rest : List Char}

theorem Sound.item (sound : Sound fuel) {v : Outline} {t' : List Char} {c : Char}
    (read : readValue fuel t = (v, some t')) (next : skipSpace t' = c :: rest) :
    ∃ i : Item, i.value = v ∧ Spells i.place.chars i.value ∧ t = i.text ++ c :: rest := by
  obtain ⟨before, u, space, spells, rfl⟩ := sound.value read
  obtain ⟨after, space', split⟩ := exists_space t'
  refine ⟨⟨⟨before, u, after, space, space'⟩, v⟩, rfl, spells, ?_⟩
  rw [Item.text, Padded.text, split, next, List.append_assoc, List.append_assoc]

theorem Sound.items_succ (sound : Sound fuel) {values : List Outline}
    (read : readItems (fuel + 1) t = (values, some rest)) :
    ∃ items : List Item, items ≠ [] ∧ (∀ i ∈ items, Spells i.place.chars i.value) ∧
      items.map Item.value = values ∧ t = listed (items.map Item.text) ++ ']' :: rest := by
  rw [readItems] at read
  split at read
  · cases read
  · next v t' first =>
    split at read
    · next t'' comma =>
      rcases later : readItems fuel t'' with ⟨values', _ | rest'⟩
      · rw [later] at read
        cases read
      rw [later] at read
      cases read
      obtain ⟨i, rfl, spells, rfl⟩ := sound.item first comma
      obtain ⟨more, ne, each, rfl, rfl⟩ := sound.items later
      refine ⟨i :: more, List.cons_ne_nil _ _, List.forall_mem_cons.2 ⟨spells, each⟩, rfl, ?_⟩
      rw [List.map_cons, listed_cons (mt List.map_eq_nil_iff.1 ne), List.append_assoc,
        List.cons_append]
    · next rest' bracket =>
      cases read
      obtain ⟨i, rfl, spells, rfl⟩ := sound.item first bracket
      refine ⟨[i], List.cons_ne_nil _ _, List.forall_mem_singleton.2 spells, rfl, ?_⟩
      rw [List.map_singleton, listed_singleton]
    · cases read

/-- A name, and the value behind it. -/
theorem Sound.entry (sound : Sound fuel) {name : Option (List Char)} {v : Outline}
    {t₁ t₂ t₃ : List Char} {c : Char} (label : readName t = some (name, t₁))
    (colon : skipSpace t₁ = ':' :: t₂) (read : readValue fuel t₂ = (v, some t₃))
    (next : skipSpace t₃ = c :: rest) :
    ∃ e : Entry, e.member = (name, v) ∧ Spells e.place.chars e.value ∧
      t = e.text ++ c :: rest := by
  obtain ⟨before, u, space, quotes, rfl⟩ := quotes_of_readName label
  obtain ⟨after, space', split⟩ := exists_space t₁
  obtain ⟨i, rfl, spells, rfl⟩ := sound.item read next
  refine ⟨⟨i, ⟨before, u, after, space, space'⟩, name, quotes⟩, rfl, spells, ?_⟩
  rw [split, colon]
  simp [Entry.text, Padded.text]

theorem Sound.members_succ (sound : Sound fuel) {members : List (Option (List Char) × Outline)}
    (read : readMembers (fuel + 1) t = (members, some rest)) :
    ∃ entries : List Entry, entries ≠ [] ∧ (∀ e ∈ entries, Spells e.place.chars e.value) ∧
      entries.map Entry.member = members ∧
        t = listed (entries.map Entry.text) ++ '}' :: rest := by
  rw [readMembers] at read
  split at read
  · cases read
  · next name t₁ label =>
    split at read
    · next t₂ colon =>
      split at read
      · cases read
      · next v t₃ first =>
        split at read
        · next t₄ comma =>
          rcases later : readMembers fuel t₄ with ⟨members', _ | rest'⟩
          · rw [later] at read
            cases read
          rw [later] at read
          cases read
          obtain ⟨e, same, spells, rfl⟩ := sound.entry label colon first comma
          obtain ⟨more, ne, each, rfl, rfl⟩ := sound.members later
          refine ⟨e :: more, List.cons_ne_nil _ _, List.forall_mem_cons.2 ⟨spells, each⟩,
            congrArg (· :: _) same, ?_⟩
          rw [List.map_cons, listed_cons (mt List.map_eq_nil_iff.1 ne), List.append_assoc,
            List.cons_append]
        · next rest' bracket =>
          cases read
          obtain ⟨e, same, spells, rfl⟩ := sound.entry label colon first bracket
          refine ⟨[e], List.cons_ne_nil _ _, List.forall_mem_singleton.2 spells,
            congrArg (· :: []) same, ?_⟩
          rw [List.map_singleton, listed_singleton]
        · cases read
    · cases read

/-- An array that is read to its bracket. -/
theorem Sound.array (sound : Sound fuel) {o : Outline}
    (read : (.array (readItems fuel t).1 (readItems fuel t).2.isSome, (readItems fuel t).2) =
      (o, some rest)) : ∃ u, Spells u o ∧ '[' :: t = u ++ rest := by
  rcases inside : readItems fuel t with ⟨values, _ | rest'⟩
  · rw [inside] at read
    cases read
  · rw [inside] at read
    cases read
    obtain ⟨items, ne, each, rfl, rfl⟩ := sound.items inside
    refine ⟨_, .array ne each, ?_⟩
    rw [List.cons_append, List.append_assoc, List.singleton_append]

/-- An object that is read to its brace. -/
theorem Sound.object (sound : Sound fuel) {o : Outline}
    (read : (.object (readMembers fuel t).1 (readMembers fuel t).2.isSome,
      (readMembers fuel t).2) = (o, some rest)) : ∃ u, Spells u o ∧ '{' :: t = u ++ rest := by
  rcases inside : readMembers fuel t with ⟨members, _ | rest'⟩
  · rw [inside] at read
    cases read
  · rw [inside] at read
    cases read
    obtain ⟨entries, ne, each, rfl, rfl⟩ := sound.members inside
    refine ⟨_, .object ne each, ?_⟩
    rw [List.cons_append, List.append_assoc, List.singleton_append]

theorem Sound.value_succ (sound : Sound fuel) {o : Outline}
    (read : readValue (fuel + 1) t = (o, some rest)) :
    ∃ before u, Space before ∧ Spells u o ∧ t = before ++ (u ++ rest) := by
  obtain ⟨before, space, split⟩ := exists_space t
  suffices taken : ∃ u, Spells u o ∧ skipSpace t = u ++ rest by
    obtain ⟨u, spells, same⟩ := taken
    exact ⟨before, u, space, spells, same ▸ split⟩
  rw [readValue] at read
  split at read
  · next t' bracket =>
    rw [bracket]
    split at read
    · next rest' closed =>
      cases read
      obtain ⟨w, inside, split⟩ := exists_space t'
      refine ⟨_, .emptyArray inside, ?_⟩
      rw [split, closed, List.cons_append, List.append_assoc, List.singleton_append]
    · rw [readItems_skipSpace] at read
      exact sound.array read
  · next t' brace =>
    rw [brace]
    split at read
    · next rest' closed =>
      cases read
      obtain ⟨w, inside, split⟩ := exists_space t'
      refine ⟨_, .emptyObject inside, ?_⟩
      rw [split, closed, List.cons_append, List.append_assoc, List.singleton_append]
    · rw [readMembers_skipSpace] at read
      exact sound.object read
  · next t' quote =>
    rw [quote]
    split at read
    · next pieces rest' taken =>
      cases read
      obtain ⟨inside, written, rfl⟩ := readPieces_eq_some_iff.1 taken
      refine ⟨_, .string written.quotes, ?_⟩
      rw [List.cons_append, List.append_assoc, List.singleton_append]
    · cases read
  · next rest' here =>
    cases read
    exact ⟨_, .null, here⟩
  · next rest' here =>
    cases read
    exact ⟨_, .yes, here⟩
  · next rest' here =>
    cases read
    exact ⟨_, .no, here⟩
  · split at read
    · next l rest' number =>
      cases read
      obtain ⟨n, taken, rfl⟩ := exists_number_of_read? number
      exact ⟨_, .number n, taken⟩
    · cases read

theorem sound (fuel : Nat) : Sound fuel := by
  induction fuel with
  | zero =>
    refine ⟨fun read => ?_, fun read => ?_, fun read => ?_⟩ <;> cases read
  | succ fuel ih => exact ⟨ih.value_succ, ih.items_succ, ih.members_succ⟩

end Sound

/-! ### Whole texts -/

/-- A text that is read to its end spells one value, with white space around it. -/
theorem isTextOf_iff {t : List Char} {o : Outline} :
    Shape.IsTextOf t o ↔ ∃ p : Padded, p.text = t ∧ Spells p.chars o := by
  constructor
  · rintro ⟨rest, read, nothing⟩
    obtain ⟨before, u, space, spells, rfl⟩ := (sound _).value read
    obtain ⟨after, space', split⟩ := exists_space rest
    rw [nothing, List.append_nil] at split
    exact ⟨⟨before, u, rest, space, split ▸ space'⟩, rfl, spells⟩
  · rintro ⟨p, rfl, spells⟩
    have ends : EndsNumeral p.after := by
      rw [← List.append_nil p.after]
      exact endsNumeral_append p.space_after endsNumeral_nil
    refine ⟨p.after, ?_, ?_⟩
    · refine spells.reads p.space_before ends ?_
      rw [Padded.text, List.length_append, List.length_append]
      omega
    · rw [← List.append_nil p.after, skipSpace_append p.space_after]
      rfl

end ScaleWatch.Json
