import Mathlib.Algebra.Group.Nat.Defs
import ScaleWatch.Config.Writing
import ScaleWatch.Proofs.Toml.Sections
import ScaleWatch.Proofs.Wire.Events

/-!
# Configurations that are written are read

A configuration that can be started with has a text if its sizes are not too large, and the text is
read as that configuration, on whatever machine: all that has a default is written, and what is not
written has none.
-/

namespace ScaleWatch

open Toml

/-! ### Values -/

namespace Toml.Shape

/-- An entry that names a field sets it. -/
theorem fillFromEntries_cons {σ : Type} {fields : List (Field σ)} {name : List Char} {v : Value}
    {rest : Table} {s s' : σ} {field : Field σ}
    (found : fields.find? (·.name.toList = name) = some field) (set : field.set v s = .ok s') :
    fillFromEntries fields ((name, v) :: rest) s = fillFromEntries fields rest s' := by
  rw [fillFromEntries, found]
  simp only [set]
  rfl

theorem natural_natCast {limit n : Nat} (inside : n ≤ limit) :
    natural limit (.integer n) = .ok n := by
  have both : (0 : Int) ≤ n ∧ (n : Int) ≤ limit := ⟨Int.natCast_nonneg n, Int.ofNat_le.2 inside⟩
  rw [natural, if_pos both, Int.toNat_natCast]

theorem parsed_of_read {α : Type} {f : String → Except Fault α} {t : List Char} {a : α}
    (read : f (String.ofList t) = .ok a) : parsed f (.string t) = .ok a := by
  have said : text (.string t) = .ok t := rfl
  rw [parsed, said, ok_bind, read]

theorem list_of_read {α : Type} {shape : Shape α} {f : α → Value} (read : ∀ a, shape (f a) = .ok a)
    (l : List α) : list shape (.array (l.map f)) = .ok l :=
  mapM_of_read read l

end Toml.Shape

namespace Config

namespace Layout

open Toml.Shape

theorem word32_toNat (n : UInt32) : word32 (.integer n.toNat) = .ok n := by
  have inside : n.toNat ≤ UInt32.size - 1 := Nat.le_sub_one_of_lt n.toNat_lt
  rw [word32, natural_natCast inside, Except.map, UInt32.ofNat_toNat]

theorem size_toNat (n : UInt64) : size (.integer n.toNat) = .ok n := by
  have inside : n.toNat ≤ UInt64.size - 1 := Nat.le_sub_one_of_lt n.toNat_lt
  rw [size, natural_natCast inside, Except.map, UInt64.ofNat_toNat]

theorem policy_name (p : GatePolicy) : word GatePolicy.ofName? (.string p.name.toList) = .ok p := by
  cases p <;> rfl

theorem keys_chars (keys : List Key) :
    list (parsed Key.parse) (.array ((keys.map Key.chars).map .string)) = .ok keys := by
  rw [List.map_map]
  exact list_of_read (fun k => parsed_of_read k.parse_chars) keys

/-- An entry that names a field is read and put into the record. -/
theorem fill_field {σ α : Type} {fields : List (Shape.Field σ)} {name : List Char} {v : Value}
    {rest : Table} {s : σ} {label : String} {isOptional : Bool} {shape : Shape α} {put : α → σ → σ}
    {a : α} (found : fields.find? (·.name.toList = name) = some (field label isOptional shape put))
    (read : shape v = .ok a) :
    fillFromEntries fields ((name, v) :: rest) s = fillFromEntries fields rest (put a s) :=
  fillFromEntries_cons found (congrArg (Except.map (put · s)) read)

/-- An entry that names a part of a configuration sets all that it holds. -/
theorem fill_part {fields parts : List (Shape.Field Config)} {name : List Char} {v : Value}
    {rest : Table} {c d : Config} {label : String}
    (found : fields.find? (·.name.toList = name) = some (part label parts))
    (read : record parts c v = .ok d) :
    fillFromEntries fields ((name, v) :: rest) c = fillFromEntries fields rest d :=
  fillFromEntries_cons found read

/-- The value of a section is the table below its header. -/
abbrev table (s : Section) : Value :=
  s.entry.2

theorem bounds_table (b : Bounds) : bounds (table (thresholdsSection b)) = .ok b := by
  have filled : record thresholdFields .empty (table (thresholdsSection b)) =
      .ok ⟨some b.lower, some b.upper, some b.bufferLength⟩ := by
    change fillFromEntries thresholdFields [("lower_limit".toList, .integer b.lower.toNat),
      ("upper_limit".toList, .integer b.upper.toNat),
      ("buffer_length".toList, .integer b.bufferLength.toNat)] .empty = _
    rw [fill_field rfl (word32_toNat b.lower), fill_field rfl (word32_toNat b.upper),
      fill_field rfl (word32_toNat b.bufferLength)]
    rfl
  rw [bounds, filled]
  rfl

theorem monitor_table (c d : Config) :
    record monitorFields d (table c.monitorSection) =
      .ok { d with policy := c.policy, maxKeys := c.maxKeys, signalSlots := c.signalSlots,
                   slotCapacity := c.slotCapacity } := by
  change fillFromEntries monitorFields [("gate".toList, .string c.policy.name.toList),
    ("max_keys".toList, .integer c.maxKeys.toNat),
    ("signal_slots".toList, .integer c.signalSlots.toNat),
    ("slot_capacity".toList, .integer c.slotCapacity.toNat)] d = _
  rw [fill_field rfl (policy_name c.policy), fill_field rfl (size_toNat c.maxKeys),
    fill_field rfl (size_toNat c.signalSlots), fill_field rfl (size_toNat c.slotCapacity)]
  rfl

/-- A delay that is not written leaves the one that is there. -/
theorem consumer_table (c d : Config) :
    record consumerFields d (table c.consumerSection) =
      .ok { d with rearmAfter? := c.rearmAfter?.or d.rearmAfter? } := by
  have entries : table c.consumerSection = .table .header
      ((c.rearmAfter?.map fun t => ("rearm_after".toList, Setting.text t.toList)).toList.map
        fun x => (x.1, x.2.value)) := rfl
  rw [entries]
  cases c.rearmAfter? with
  | none => rfl
  | some t =>
    have read : text (.string t.toList) = .ok t.toList := rfl
    change fillFromEntries consumerFields [("rearm_after".toList, .string t.toList)] d = _
    rw [fill_field rfl read, String.ofList_toList]
    rfl

theorem watch_table (c d : Config) :
    record watchFields d (table c.watchSection) = .ok { d with keys := c.keys } := by
  change fillFromEntries watchFields [("keys".toList, .array ((c.keys.map Key.chars).map .string))]
    d = _
  rw [fill_field rfl (keys_chars c.keys)]
  rfl

end Layout

section Tables

open Layout

/-- What stands behind the bounds fills in all but the bounds. -/
theorem fill_parts (c d : Config) (bounds : d.bounds? = c.bounds?) (unset : d.rearmAfter? = none) :
    Shape.fillFromEntries fields
      ([c.monitorSection, c.consumerSection, c.watchSection].map Section.entry) d = .ok c := by
  change Shape.fillFromEntries fields [("monitor".toList, table c.monitorSection),
    ("consumer".toList, table c.consumerSection), ("watch".toList, table c.watchSection)] d = _
  rw [fill_part rfl (monitor_table c d), fill_part rfl (consumer_table c _),
    fill_part rfl (watch_table c _)]
  simp only [Shape.fillFromEntries, bounds, unset, Option.or_none]

/-- The tables of a configuration say all there is to say of it. -/
theorem ofTable_sections (units : UInt64) (c : Config) :
    ofTable units (c.sections.map Section.entry) = .ok c := by
  rcases written : c.bounds? with _ | b
  · have same : c.sections = [c.monitorSection, c.consumerSection, c.watchSection] := by
      rw [sections, written]
      rfl
    rw [ofTable, same]
    exact fill_parts c (default units) written.symm rfl
  · have same : c.sections =
        thresholdsSection b :: [c.monitorSection, c.consumerSection, c.watchSection] := by
      rw [sections, written]
      rfl
    rw [ofTable, same, List.map_cons]
    change Shape.fillFromEntries fields
      (("thresholds".toList, table (thresholdsSection b)) :: _) _ = _
    rw [fill_field rfl (bounds_table b)]
    exact fill_parts c _ written.symm rfl

end Tables

/-! ### Texts -/

theorem fits_word32 (n : UInt32) : (Setting.number n.toNat).Fits := by
  have := n.toNat_lt
  have : maxInteger = 2 ^ 63 - 1 := rfl
  simp only [Setting.Fits]
  omega

theorem fits_of_le_maxSize {n : Nat} (small : n ≤ maxSize) : (Setting.number n).Fits := by
  have : maxInteger = maxSize := rfl
  simp only [Setting.Fits]
  omega

theorem readable_thresholdsSection (b : Bounds) : (thresholdsSection b).Readable where
  name := show IsName "thresholds".toList by decide
  keys := show ∀ key ∈ ["lower_limit".toList, "upper_limit".toList, "buffer_length".toList],
    IsName key by decide
  fits := List.forall_mem_cons.2 ⟨fits_word32 _, List.forall_mem_cons.2 ⟨fits_word32 _,
    List.forall_mem_singleton.2 (fits_word32 _)⟩⟩
  distinct := show ["lower_limit".toList, "upper_limit".toList, "buffer_length".toList].Nodup by
    decide

theorem readable_monitorSection {c : Config} (writable : c.IsWritable) :
    c.monitorSection.Readable where
  name := show IsName "monitor".toList by decide
  keys := show ∀ key ∈ ["gate".toList, "max_keys".toList, "signal_slots".toList,
    "slot_capacity".toList], IsName key by decide
  fits := List.forall_mem_cons.2 ⟨trivial,
    List.forall_mem_cons.2 ⟨fits_of_le_maxSize writable.1,
      List.forall_mem_cons.2 ⟨fits_of_le_maxSize writable.2.1,
        List.forall_mem_singleton.2 (fits_of_le_maxSize writable.2.2)⟩⟩⟩
  distinct := show ["gate".toList, "max_keys".toList, "signal_slots".toList,
    "slot_capacity".toList].Nodup by decide

theorem readable_consumerSection (c : Config) : c.consumerSection.Readable := by
  obtain ⟨bounds, policy, keys, slots, capacity, rearm, watched⟩ := c
  have name : IsName "consumer".toList := by decide
  have key : ∀ key ∈ ["rearm_after".toList], IsName key := by decide
  cases rearm with
  | none => exact ⟨name, List.forall_mem_nil _, List.forall_mem_nil _, List.nodup_nil⟩
  | some t => exact ⟨name, key, List.forall_mem_singleton.2 trivial, List.pairwise_singleton _ _⟩

theorem readable_watchSection (c : Config) : c.watchSection.Readable where
  name := show IsName "watch".toList by decide
  keys := show ∀ key ∈ ["keys".toList], IsName key by decide
  fits := List.forall_mem_singleton.2 trivial
  distinct := List.pairwise_singleton _ _

theorem readable_sections {c : Config} (writable : c.IsWritable) :
    ∀ s ∈ c.sections, s.Readable := by
  intro s inside
  simp only [sections, List.mem_append, Option.mem_toList, Option.map_eq_some_iff, List.mem_cons,
    List.not_mem_nil, or_false] at inside
  rcases inside with ⟨b, -, rfl⟩ | rfl | rfl | rfl
  · exact readable_thresholdsSection b
  · exact readable_monitorSection writable
  · exact readable_consumerSection c
  · exact readable_watchSection c

theorem distinct_sections (c : Config) : (c.sections.map (·.name)).Nodup := by
  have all : ["thresholds".toList, "monitor".toList, "consumer".toList, "watch".toList].Nodup := by
    decide
  obtain ⟨_ | b, policy, keys, slots, capacity, rearm, watched⟩ := c
  · exact (List.nodup_cons.1 all).2
  · exact all

theorem ofChars_sections {c : Config} (writable : c.IsWritable) (valid : c.check = .ok ())
    (units : UInt64) : ofChars units (Section.allChars c.sections) = .ok c := by
  have described : (ofTable units (c.sections.map Section.entry)).mapError LoadFault.ofRefusal =
      .ok c := by
    rw [ofTable_sections]
    rfl
  have checked : c.check.mapError LoadFault.refused = .ok () := by
    rw [valid]
    rfl
  rw [ofChars, read?_allChars (readable_sections writable) c.distinct_sections]
  simp only [described, ok_bind, checked]
  rfl

/-- A configuration that can be started with has a text exactly if TOML numbers hold its sizes, and
its text is read as the same configuration on every machine. -/
theorem text_round_trips (c : Config) (valid : c.check = .ok ()) :
    (c.text?.isSome = true ↔ c.maxKeys.toNat ≤ 2 ^ 63 - 1 ∧ c.signalSlots.toNat ≤ 2 ^ 63 - 1 ∧
      c.slotCapacity.toNat ≤ 2 ^ 63 - 1) ∧
      ∀ units text, c.text? = some text → Config.parse units text = .ok c := by
  have limit : maxSize = 2 ^ 63 - 1 := rfl
  by_cases writable : c.IsWritable
  · have written : c.text? = some (.ofList (Section.allChars c.sections)) := if_pos writable
    refine ⟨?_, fun units text here => ?_⟩
    · rw [written, ← limit]
      exact iff_of_true rfl writable
    · rw [written, Option.some_inj] at here
      rw [← here, parse, String.toList_ofList]
      exact ofChars_sections writable valid units
  · have unwritten : c.text? = none := if_neg writable
    refine ⟨?_, fun units text here => ?_⟩
    · rw [unwritten, ← limit]
      exact iff_of_false Bool.false_ne_true writable
    · rw [unwritten] at here
      cases here

/-- A delay between blanks of several kinds, some of which are line ends or need escapes, the
largest size that can be written, and a key that is listed twice. -/
def blankDelay : Config where
  bounds? := some ⟨0, 4294967295, 1⟩
  policy := .ungated
  maxKeys := 9223372036854775807
  signalSlots := 1
  slotCapacity := 64
  rearmAfter? := some "\n\t\x0b\r\u3000+007m\u0085\x0c\n\u2028"
  keys := [.port 80, .netns 4026531992, .port 80]

theorem text_round_trips_blankDelay : blankDelay.check = .ok () ∧
    ∃ text, blankDelay.text? = some text ∧ ∀ units, Config.parse units text = .ok blankDelay := by
  have valid : blankDelay.check = .ok () := by decide +kernel
  obtain ⟨written, back⟩ := text_round_trips blankDelay valid
  obtain ⟨text, here⟩ := Option.isSome_iff_exists.1 (written.2 (by decide))
  exact ⟨valid, text, here, fun units => back units text here⟩

end Config

end ScaleWatch
