import Crosswalk.Number
import Crosswalk.Decimal.Layout
import Crosswalk.Text.Shown

/-!
# YAML trees

A YAML tree is what a YAML document holds once its scalars are resolved. Any tree can be the key of
a mapping.

* `keyText`: the member name that a key becomes: its own text for a scalar, and the text of the
  whole tree for anything else.
* `toValue`: the value of a tree. A key `<<` with a mapping, or with a sequence of mappings, lends
  their entries to the mapping it stands in: an earlier lender wins over a later one, and entries
  of the mapping itself win over all lenders.
-/

namespace Crosswalk

/-- What a YAML document holds. -/
inductive Yaml where
  | null
  | bool (b : Bool)
  | number (n : Number)
  | string (s : String)
  | sequence (items : List Yaml)
  | mapping (entries : List (Yaml × Yaml))
  | tagged (tag : String) (y : Yaml)
deriving Inhabited

/-- Numbers with a leading exponent from -5 to 15 have no exponent part; whole ones keep `.0`. -/
def yamlNumberLayout : Decimal.Layout where
  tie := .even
  positional := some (-5, 15)
  keepsPoint := true
  signsExponent := false
  nan := "nan"
  signsNaN := false

def Number.yamlText : Number → String
  | natural n => Decimal.ofNatText n.toNat
  | negative n => Decimal.ofIntText n.toInt
  | real x =>
    if x.isFinite then x.text yamlNumberLayout
    else if x.isNaN then ".nan"
    else if x.isNegative then "-.inf"
    else ".inf"

namespace Yaml

/-! ## Trees in nested containers -/

theorem sizeOf_fst_lt {es : List (Yaml × Yaml)} {e : Yaml × Yaml} (h : e ∈ es) :
    sizeOf e.1 < sizeOf es := by
  have := List.sizeOf_lt_of_mem h
  obtain ⟨k, v⟩ := e
  simp only [Prod.mk.sizeOf_spec] at this ⊢
  omega

theorem sizeOf_snd_lt {es : List (Yaml × Yaml)} {e : Yaml × Yaml} (h : e ∈ es) :
    sizeOf e.2 < sizeOf es := by
  have := List.sizeOf_lt_of_mem h
  obtain ⟨k, v⟩ := e
  simp only [Prod.mk.sizeOf_spec] at this ⊢
  omega

/-! ## Keys -/

/-- The text of a whole tree, with the kind of every part. -/
def shown : Yaml → String
  | null => "Null"
  | bool b => "Bool(" ++ boolText b ++ ")"
  | number n => "Number(" ++ n.yamlText ++ ")"
  | string s => "String(" ++ Text.shown s ++ ")"
  | sequence ys => "Sequence [" ++ ", ".intercalate (ys.map shown) ++ "]"
  | mapping es =>
    "Mapping \x7b" ++ ", ".intercalate (es.map fun e =>
      (match e.1 with
        | bool b => boolText b
        | number n => n.yamlText
        | string s => Text.shown s
        | _ => shown e.1) ++ ": " ++ shown e.2) ++ "\x7d"
  | tagged tag y => "TaggedValue \x7b tag: !" ++ tag ++ ", value: " ++ shown y ++ " \x7d"
decreasing_by
  · have := List.sizeOf_lt_of_mem ‹_›
    simp only [sequence.sizeOf_spec]; omega
  · have := sizeOf_fst_lt ‹_›
    simp only [mapping.sizeOf_spec]; omega
  · have := sizeOf_snd_lt ‹_›
    simp only [mapping.sizeOf_spec]; omega
  · simp only [tagged.sizeOf_spec]; omega

/-- The member name that a key becomes. -/
def keyText : Yaml → String
  | string s => s
  | bool b => boolText b
  | number n => n.yamlText
  | null => "null"
  | y => y.shown

/-! ## Values -/

/-- Whether an entry lends the entries of its value. -/
def lends (e : Yaml × Yaml) : Bool :=
  e.1.keyText == "<<" && match e.2 with
    | mapping _ => true
    | sequence _ => true
    | _ => false

/-- A member put in place unless the name is taken. -/
def putNew (ms : Members Value) (m : String × Value) : Members Value :=
  match ms.get? m.1 with
  | some _ => ms
  | none => ms.put m.1 m.2

/-- The members that lenders and a mapping of its own give. -/
def assemble (lent own : List (String × Value)) : Members Value :=
  (Members.ofList own).foldl (fun ms m => ms.put m.1 m.2) (lent.foldl putNew [])

mutual

/-- The value of a tree. -/
def toValue : Yaml → Value
  | null => .null
  | bool b => .bool b
  | number n => n.toValue
  | string s => .string s
  | sequence ys => .array (ys.map toValue)
  | mapping es =>
    .map (assemble (es.flatMap fun e => if lends e then lenders e.2 else [])
      (es.flatMap fun e => if lends e then [] else [(e.1.keyText, toValue e.2)]))
  | tagged _ y => toValue y
termination_by y => (sizeOf y, 0)
decreasing_by
  · have := List.sizeOf_lt_of_mem ‹_›
    simp only [Prod.lex_def, sequence.sizeOf_spec]; omega
  · have := sizeOf_snd_lt ‹_›
    simp only [Prod.lex_def, mapping.sizeOf_spec]; omega
  · have := sizeOf_snd_lt ‹_›
    simp only [Prod.lex_def, mapping.sizeOf_spec]; omega
  · simp only [Prod.lex_def, tagged.sizeOf_spec]; omega

/-- The entries that a value lends: those of a mapping, or of each mapping in a sequence. -/
def lenders : Yaml → List (String × Value)
  | sequence ys => ys.flatMap entriesOf
  | y => entriesOf y
termination_by y => (sizeOf y, 1)
decreasing_by
  · have := List.sizeOf_lt_of_mem ‹_›
    simp only [Prod.lex_def, sequence.sizeOf_spec]; omega
  · exact Prod.Lex.right _ (by decide)

/-- The entries of a mapping, a key `<<` among them like any other. -/
def entriesOf : Yaml → List (String × Value)
  | mapping es => es.map fun e => (e.1.keyText, toValue e.2)
  | _ => []
termination_by y => (sizeOf y, 0)
decreasing_by
  · have := sizeOf_snd_lt ‹_›
    simp only [Prod.lex_def, mapping.sizeOf_spec]; omega

end

end Yaml

end Crosswalk
