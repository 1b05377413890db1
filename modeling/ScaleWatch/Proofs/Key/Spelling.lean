import ScaleWatch.Proofs.Wire.Events

/-!
# The texts that spell a key

A key may be spelled in many ways: between blanks stand the word of its kind, a colon, and a numeral
of its number with a plus sign and zeros in front or without them (`Spelling`).  A text is read as a
key exactly if it is a spelling of that key (`parse_eq_ok_iff`).  The text that is written for a key
is one of its spellings, and two spellings are of one key exactly if they are alike but for the
blanks, the plus sign and the zeros in front (`Spelling.key_eq_iff`).
-/

namespace ScaleWatch.Key

open Text

/-! ### Spellings -/

inductive Kind where
  | netns
  | port
  deriving DecidableEq

namespace Kind

/-- The word in front of the colon. -/
def word : Kind → List Char
  | netns => "netns".toList
  | port => "port".toList

/-- The largest number of a key of this kind: a number of a namespace has 32 bits, that of a port
16. -/
def limit : Kind → Nat
  | netns => 4294967295
  | port => 65535

def key : Kind → Nat → Key
  | netns, n => .netns (.ofNat n)
  | port, n => .port (.ofNat n)

end Kind

/-- A way to write a key. -/
structure Spelling where
  before : List Char
  kind : Kind
  number : Numeral.Written
  after : List Char
  blank : ∀ c ∈ before ++ after, isBlank c = true
  inside : number.value ≤ kind.limit

namespace Spelling

def chars (w : Spelling) : List Char :=
  w.before ++ (w.kind.word ++ ':' :: w.number.chars) ++ w.after

/-- The key that is spelled. -/
def key (w : Spelling) : Key :=
  w.kind.key w.number.value

end Spelling

/-! ### What is read -/

section Reading

variable {kind : Kind} {t : List Char} {k : Key}

theorem takeWhile_word (kind : Kind) (value : List Char) :
    (kind.word ++ ':' :: value).takeWhile (· ≠ ':') = kind.word ∧
      (kind.word ++ ':' :: value).dropWhile (· ≠ ':') = ':' :: value := by
  cases kind <;> exact ⟨rfl, rfl⟩

theorem ofTrimmed?_word (kind : Kind) (value : List Char) :
    ofTrimmed? (kind.word ++ ':' :: value) =
      (Numeral.read? kind.limit value).map kind.key := by
  obtain ⟨word, rest⟩ := takeWhile_word kind value
  rw [ofTrimmed?, word, rest]
  cases kind <;> rfl

theorem exists_word_of_ofTrimmed? (read : ofTrimmed? t = some k) :
    ∃ (kind : Kind) (value : List Char), t = kind.word ++ ':' :: value := by
  have whole : t.takeWhile (· ≠ ':') ++ t.dropWhile (· ≠ ':') = t :=
    List.takeWhile_append_dropWhile
  have colon := List.head?_dropWhile_not (· ≠ ':') t
  unfold ofTrimmed? at read
  split at read
  · next c value rest =>
    rw [rest] at whole colon
    have isColon : c = ':' := by simpa using colon
    rw [isColon] at whole
    split at read
    · next word => exact ⟨.netns, value, by rw [← whole, word]; rfl⟩
    · split at read
      · next word => exact ⟨.port, value, by rw [← whole, word]; rfl⟩
      · cases read
  · cases read

theorem ofTrimmed?_eq_some_iff :
    ofTrimmed? t = some k ↔
      ∃ (kind : Kind) (w : Numeral.Written), kind.word ++ ':' :: w.chars = t ∧
        w.value ≤ kind.limit ∧ kind.key w.value = k := by
  constructor
  · intro read
    obtain ⟨kind, value, rfl⟩ := exists_word_of_ofTrimmed? read
    rw [ofTrimmed?_word, Option.map_eq_some_iff] at read
    obtain ⟨n, numeral, rfl⟩ := read
    obtain ⟨w, rfl, rfl, inside⟩ := Numeral.read?_eq_some_iff.1 numeral
    exact ⟨kind, w, rfl, inside, rfl⟩
  · rintro ⟨kind, w, rfl, inside, rfl⟩
    rw [ofTrimmed?_word, Numeral.read?_eq_some_iff.2 ⟨w, rfl, rfl, inside⟩, Option.map_some]

/-- Neither the word of a kind nor a numeral has a blank at its ends. -/
theorem trim_word (kind : Kind) (w : Numeral.Written) :
    trim (kind.word ++ ':' :: w.chars) = kind.word ++ ':' :: w.chars := by
  refine trim_of_ends (fun c first => ?_) fun c last => ?_
  · cases kind <;> cases first <;> decide
  · have digit : c ∈ w.digits := by
      rw [List.getLast?_append_of_ne_nil _ (List.cons_ne_nil _ _), Numeral.Written.chars,
        ← List.cons_append, List.getLast?_append_of_ne_nil _ w.ne_nil] at last
      exact List.mem_of_getLast? last
    exact not_isBlank_of_isDigit (w.isDigit c digit)

theorem ofChars?_eq_some_iff : ofChars? t = some k ↔ ∃ w : Spelling, w.chars = t ∧ w.key = k := by
  rw [ofChars?, ofTrimmed?_eq_some_iff]
  constructor
  · rintro ⟨kind, w, trimmed, inside, rfl⟩
    obtain ⟨before, after, whole, blank⟩ := exists_blanks t
    exact ⟨⟨before, kind, w, after, blank, inside⟩, by rw [whole, ← trimmed]; rfl, rfl⟩
  · rintro ⟨w, rfl, rfl⟩
    refine ⟨w.kind, w.number, ?_, w.inside, rfl⟩
    rw [Spelling.chars, trim_blanks w.blank, trim_word]

end Reading

theorem parse_eq_ok_iff {text : String} {k : Key} :
    parse text = .ok k ↔ ∃ w : Spelling, w.chars = text.toList ∧ w.key = k := by
  rw [← ofChars?_eq_some_iff, parse]
  cases ofChars? text.toList <;> simp

theorem parse_text (k : Key) : parse k.text = .ok k :=
  parse_chars k

theorem text_injective : Function.Injective text := fun k k' same => by
  have read := k.parse_text
  rw [same, parse_text] at read
  exact (Except.ok.inj read).symm

/-! ### Canonical texts -/

theorem letters_netns : "netns:".toList ⊆ "netsport:".toList := by
  decide

theorem letters_port : "port:".toList ⊆ "netsport:".toList := by
  decide

theorem mem_chars {k : Key} {c : Char} (inside : c ∈ k.chars) :
    c.isDigit = true ∨ c ∈ "netsport:".toList := by
  have numeral : ∀ (kind : List Char) (n : Nat), c ∈ kind ++ Numeral.digits n →
      c ∈ kind ∨ c.isDigit = true := fun kind n written =>
    (List.mem_append.1 written).imp_right Numeral.isDigit_of_mem_digits
  cases k with
  | netns id =>
    exact (numeral _ _ inside).symm.imp_right fun kind => letters_netns kind
  | port number =>
    exact (numeral _ _ inside).symm.imp_right fun kind => letters_port kind

theorem not_mem_chars {k : Key} {c : Char} (noDigit : c.isDigit = false)
    (other : c ∉ "netsport:".toList) : c ∉ k.chars := by
  intro inside
  rcases mem_chars inside with digit | letter
  · rw [noDigit] at digit
    cases digit
  · exact other letter

theorem Kind.key_inj {kind kind' : Kind} {n n' : Nat} (inside : n ≤ kind.limit)
    (inside' : n' ≤ kind'.limit) : kind.key n = kind'.key n' ↔ kind = kind' ∧ n = n' := by
  cases kind with
  | netns =>
    cases kind' with
    | netns =>
      have small : n < UInt32.size := Nat.lt_succ_of_le inside
      have small' : n' < UInt32.size := Nat.lt_succ_of_le inside'
      rw [key, key, netns.injEq, ← UInt32.toNat_inj, UInt32.toNat_ofNat_of_lt' small,
        UInt32.toNat_ofNat_of_lt' small']
      simp
    | port => simp [key]
  | port =>
    cases kind' with
    | netns => simp [key]
    | port =>
      have small : n < UInt16.size := Nat.lt_succ_of_le inside
      have small' : n' < UInt16.size := Nat.lt_succ_of_le inside'
      rw [key, key, port.injEq, ← UInt16.toNat_inj, UInt16.toNat_ofNat_of_lt' small,
        UInt16.toNat_ofNat_of_lt' small']
      simp

/-- Spellings that differ in the blanks around them, the plus sign and the zeros in front only. -/
def Spelling.Alike (w w' : Spelling) : Prop :=
  w.kind = w'.kind ∧ w.number.significant = w'.number.significant

theorem Spelling.key_eq_iff {w w' : Spelling} : w.key = w'.key ↔ w.Alike w' := by
  rw [key, key, Kind.key_inj w.inside w'.inside, Numeral.Written.value_eq_iff, Alike]

/-- A text is read as a key if it is a spelling of that key and not otherwise; what is not read is
quoted as it is.  The text that is written for a key is read as that key, and keys that differ have
different texts.  Texts that are read stand for one key exactly if they are spellings that are alike
but for blanks, plus sign and zeros in front. -/
theorem read_by_grammar :
    (∀ text k, parse text = .ok k ↔ ∃ w : Spelling, w.chars = text.toList ∧ w.key = k) ∧
    (∀ text, (∀ w : Spelling, w.chars ≠ text.toList) →
      parse text = .error (.invalidKey text)) ∧
    (∀ k : Key, parse k.text = .ok k) ∧ (∀ k k' : Key, k ≠ k' → k.text ≠ k'.text) ∧
    ∀ text text' k k', parse text = .ok k → parse text' = .ok k' →
      (k = k' ↔ ∃ w w' : Spelling, w.chars = text.toList ∧ w'.chars = text'.toList ∧
        w.Alike w') := by
  refine ⟨fun text k => parse_eq_ok_iff, fun text other => ?_, parse_text,
    fun k k' => mt (@text_injective k k'), fun text text' k k' read read' => ?_⟩
  · have unread : ofChars? text.toList = none := by
      rw [Option.eq_none_iff_forall_ne_some]
      intro k read
      obtain ⟨w, spelled, -⟩ := ofChars?_eq_some_iff.1 read
      exact other w spelled
    rw [parse, unread]
  · obtain ⟨w, spelled, rfl⟩ := parse_eq_ok_iff.1 read
    obtain ⟨w', spelled', rfl⟩ := parse_eq_ok_iff.1 read'
    constructor
    · exact fun same => ⟨w, w', spelled, spelled', Spelling.key_eq_iff.1 same⟩
    · rintro ⟨v, v', again, again', alike⟩
      -- A text is read as one key only, however it is taken apart.
      have first := parse_eq_ok_iff.2 ⟨v, again, rfl⟩
      have second := parse_eq_ok_iff.2 ⟨v', again', rfl⟩
      rw [Except.ok.inj (read.symm.trans first), Except.ok.inj (read'.symm.trans second)]
      exact Spelling.key_eq_iff.2 alike

end ScaleWatch.Key
