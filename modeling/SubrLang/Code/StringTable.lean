import SubrLang.Code.Layout
import SubrLang.Digest

/-!
# String constants

The string constants of a program with their labels. Equal texts share one record when the table says
so.

Texts are found again by their digest. Different texts may have the same one, so the texts under a digest
are compared as well, and what is found does not depend on the digest (`StringTable.find?_eq`).
-/

namespace SubrLang

/-- A string record with given bytes. -/
def StringRecord.ofBytes (label : Label) (bytes : List UInt8) : Code :=
  Code.cell label (.int .dataI tag) ++ Code.one (.int .dataI status) ++
    Code.one (.int .dataI bytes.length) ++ Code.one (.dataS bytes)

/-- The record of a string constant. -/
def StringRecord.code (label text : String) : Code :=
  ofBytes label (Text.Utf8.encode text)

/-- The digest of the bytes of a text. -/
def Digest.ofText (text : String) : UInt64 :=
  ofBytes (Text.Utf8.encode text)

structure StringTable where
  /-- Whether equal texts share a record. -/
  shared : Bool
  /-- What texts are sorted by. -/
  digest : String → UInt64 := Digest.ofText
  /-- Texts with their labels, the first one first. -/
  entries : List (String × String) := []
  /-- The texts with a given digest and their labels, the first one first. -/
  bucket : UInt64 → List (String × String) := fun _ => []
  bucket_eq : ∀ h, bucket h = entries.filter (digest ·.1 == h) := by exact fun _ => rfl

namespace StringTable

/-- The label of a record that a text can use. -/
def find? (t : StringTable) (text : String) : Option String :=
  if t.shared then (t.bucket (t.digest text)).lookup text else none

/-- A new entry goes behind the texts with its digest. -/
theorem bucket_append (t : StringTable) (text label : String) (h : UInt64) :
    (if t.digest text == h then t.bucket h ++ [(text, label)] else t.bucket h) =
      (t.entries ++ [(text, label)]).filter (t.digest ·.1 == h) := by
  rw [List.filter_append, ← t.bucket_eq, List.filter_cons]
  split
  · rfl
  · exact (List.append_nil _).symm

/-- Adds a record. -/
def insert (t : StringTable) (text label : String) : StringTable :=
  let key := t.digest text
  { t with
    entries := t.entries ++ [(text, label)]
    bucket := fun h => if key == h then t.bucket h ++ [(text, label)] else t.bucket h
    bucket_eq := t.bucket_append text label }

/-- The records of the table. -/
def code (t : StringTable) : Code :=
  t.entries.flatMap fun (text, label) => StringRecord.code label text

/-- Entries with another digest than that of a text are not entries of the text. -/
theorem lookup_filter_digest (digest : String → UInt64) (text : String) (es : List (String × String)) :
    (es.filter (digest ·.1 == digest text)).lookup text = es.lookup text := by
  induction es with
  | nil => rfl
  | cons e es ih =>
    rw [List.filter_cons, List.lookup_cons]
    cases htext : text == e.1 with
    | true =>
      obtain rfl := eq_of_beq htext
      rw [if_pos (beq_self_eq_true _), List.lookup_cons, htext]
    | false =>
      split
      · rw [List.lookup_cons, htext, ih]
      · exact ih

/-- The digest does not decide what is found. -/
theorem find?_eq (t : StringTable) (text : String) :
    t.find? text = if t.shared then t.entries.lookup text else none := by
  rw [find?, t.bucket_eq, lookup_filter_digest]

end StringTable

end SubrLang
