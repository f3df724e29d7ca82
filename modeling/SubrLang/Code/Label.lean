import SubrLang.Text.Utf8

/-!
# Labels

Labels name places in code and data. Those of compiled programs are texts, but any bytes will do for a
label, and two labels are the same if their bytes are (`Label.toBytes_inj`).
-/

namespace SubrLang

inductive Label where
  | text (s : String)
  /-- Bytes that are no text. -/
  | bytes (bs : List UInt8) (h : Text.Utf8.text? bs = none)
deriving DecidableEq, Repr

namespace Label

instance : Coe String Label := ⟨text⟩

def ofBytes (bs : List UInt8) : Label :=
  match h : Text.Utf8.text? bs with
  | some s => text s
  | none => bytes bs h

def toBytes : Label → List UInt8
  | text s => Text.Utf8.encode s
  | bytes bs _ => bs

theorem toBytes_ofBytes (bs : List UInt8) : (ofBytes bs).toBytes = bs := by
  unfold ofBytes
  split
  · next s h => exact Text.Utf8.encode_of_text? h
  · rfl

theorem ofBytes_toBytes (l : Label) : ofBytes l.toBytes = l := by
  unfold ofBytes
  cases l with
  | text s =>
    split
    · next t h => simpa [toBytes, Text.Utf8.text?_encode, eq_comm] using h
    · next h => simp [toBytes, Text.Utf8.text?_encode] at h
  | bytes bs hbs =>
    split
    · next t h => simp [toBytes, hbs] at h
    · rfl

theorem toBytes_inj {k l : Label} : k.toBytes = l.toBytes ↔ k = l :=
  ⟨fun h => by rw [← ofBytes_toBytes k, h, ofBytes_toBytes], fun h => by rw [h]⟩

end Label

/-- A family of labels of one construct: a stem and a number that no other family has. -/
structure LabelFamily where
  stem : String
  number : Nat
deriving DecidableEq, Repr

/-- The label of a family for one of its roles; the role may be left out. -/
def LabelFamily.label (f : LabelFamily) (role : String) : String :=
  if role.isEmpty then s!"-{f.stem}-{f.number}" else s!"-{f.stem}-{f.number}-{role}"

end SubrLang
