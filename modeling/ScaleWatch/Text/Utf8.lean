/-!
# UTF-8

Octets come in from files, pipes and percent escapes. They are text exactly when they are the
UTF-8 encoding of some characters.
-/

namespace ScaleWatch.Text.Utf8

/-- The characters that the octets encode, if they are well formed throughout. -/
def decode? (octets : List UInt8) : Option (List Char) :=
  (String.fromUTF8? ⟨octets.toArray⟩).map String.toList

def encode (t : List Char) : List UInt8 :=
  (String.ofList t).toUTF8.data.toList

theorem decode?_encode (t : List Char) : decode? (encode t) = some t := by
  have same : (⟨(encode t).toArray⟩ : ByteArray) = (String.ofList t).toUTF8 := by simp [encode]
  have valid : (String.ofList t).toUTF8.IsValidUTF8 := (String.ofList t).isValidUTF8
  rw [decode?, same, String.fromUTF8?, dif_pos valid]
  exact congrArg some String.toList_ofList

end ScaleWatch.Text.Utf8
