import Crosswalk.Proofs.Path.Grammar

/-!
# Derivations of path texts

The grammar of path texts as it is explained to people, without the readers in mind: a name is a run
of pieces that no further piece extends, a path is a field or a suffix, followed by suffixes and by
fields behind dots. The texts that are derivable are those that are read, as the same segments.

* `NamePiece`, `NamePieces`, `FieldText`: names, piece by piece.
* `TailDerives`, `PathDerives`: paths.
* `nameText_iff`, `tailText_iff`, `pathText_iff`: derivable texts are those of the readers.
* `readNumberInWord_eq`: no number that is being read leaves a signed word of 64 bits.
* `readTailWithin_eq`: the segments of a text are read in at most as many rounds as it has
  characters.
* `Path.parse_iff_derives`: the three together.
-/

namespace Crosswalk

open Decimal

/-! ## Names -/

/-- `NamePiece before text chars after`: a piece of a name, the characters that it stands for, and
whether the last escaped bracket of the name was an opening one, before and after the piece. -/
inductive NamePiece : (before : Bool) → (text chars : List Char) → (after : Bool) → Prop
  | escapedOpen {b : Bool} : NamePiece b ['\\', '['] ['['] true
  | escapedClose {b : Bool} : NamePiece b ['\\', ']'] [']'] false
  | escaped {b : Bool} {c : Char} : c ≠ '[' → c ≠ ']' → NamePiece b ['\\', c] [c] b
  | pair {b : Bool} : NamePiece b ['[', ']'] ['[', ']'] b
  | plain {b : Bool} {c : Char} : c ≠ '\\' → c ≠ '.' → c ≠ '[' → c ≠ ']' → NamePiece b [c] [c] b
  | dot : NamePiece true ['.'] ['.'] true

/-- Pieces of a name in a row. -/
inductive NamePieces : (before : Bool) → (text chars : List Char) → (after : Bool) → Prop
  | nil {b : Bool} : NamePieces b [] [] b
  | cons {b b' b'' : Bool} {text chars texts more : List Char} : NamePiece b text chars b' →
    NamePieces b' texts more b'' → NamePieces b (text ++ texts) (chars ++ more) b''

/-- No further piece stands at the front of a text. -/
def Unextendable (b : Bool) (rest : List Char) : Prop :=
  ∀ text chars b' more, NamePiece b text chars b' → rest ≠ text ++ more

/-- The text of a field with a name, in front of the rest of the text: one piece or more, as many as
there are. -/
def FieldText (text : List Char) (name : String) (rest : List Char) : Prop :=
  text ≠ [] ∧ ∃ b, NamePieces false text name.toList b ∧ Unextendable b rest

/-- An escaped character is one piece, whatever it is. -/
theorem NamePiece.backslash (b : Bool) (c : Char) : NamePiece b ['\\', c] [c] (dotsAfter b c) := by
  by_cases hopen : c = '['
  · subst hopen
    exact .escapedOpen
  · by_cases hclose : c = ']'
    · subst hclose
      exact .escapedClose
    · rw [dotsAfter, if_neg hopen, if_neg hclose]
      exact .escaped hopen hclose

/-- A piece in front of a name makes it longer. -/
theorem NamePiece.nameText {b b' : Bool} {text chars cs name rest : List Char}
    (h : NamePiece b text chars b') (htail : NameText b' cs name rest) :
    NameText b (text ++ cs) (chars ++ name) rest := by
  cases h with
  | escapedOpen => exact .escaped htail
  | escapedClose => exact .escaped htail
  | escaped hopen hclose =>
    refine .escaped ?_
    rwa [dotsAfter, if_neg hopen, if_neg hclose]
  | pair => exact .pair htail
  | plain hslash hdot hopen hclose =>
    exact .plain hslash hopen hclose (fun h => absurd h hdot) htail
  | dot => exact .plain (by decide) (by decide) (by decide) (fun _ => rfl) htail

/-- Names are pieces in a row, up to where a name ends. -/
theorem nameText_iff {b : Bool} {cs name rest : List Char} : NameText b cs name rest ↔
    ∃ text b', cs = text ++ rest ∧ NamePieces b text name b' ∧ NameEnds b' rest := by
  constructor
  · intro h
    induction h with
    | stop hends => exact ⟨[], _, rfl, .nil, hends⟩
    | escaped _ ih =>
      obtain ⟨text, b', rfl, hpieces, hends⟩ := ih
      exact ⟨_, b', rfl, .cons (.backslash _ _) hpieces, hends⟩
    | pair _ ih =>
      obtain ⟨text, b', rfl, hpieces, hends⟩ := ih
      exact ⟨_, b', rfl, .cons .pair hpieces, hends⟩
    | @plain b c cs name rest hslash hopen hclose hdot _ ih =>
      obtain ⟨text, b', rfl, hpieces, hends⟩ := ih
      refine ⟨c :: text, b', rfl, ?_, hends⟩
      by_cases hc : c = '.'
      · obtain rfl := hdot hc
        subst hc
        exact .cons .dot hpieces
      · exact .cons (.plain hslash hc hopen hclose) hpieces
  · rintro ⟨text, b', rfl, hpieces, hends⟩
    induction hpieces with
    | nil => exact .stop hends
    | cons hpiece _ ih =>
      rw [List.append_assoc]
      exact hpiece.nameText (ih hends)

/-- Where a name ends, no piece extends it. -/
theorem NameEnds.unextendable {b : Bool} {rest : List Char} (h : NameEnds b rest) :
    Unextendable b rest := by
  rintro text chars b' more hpiece hrest
  cases h with
  | nil => cases hpiece <;> cases hrest
  | dot cs hb =>
    subst hb
    cases hpiece with
    | plain _ hdot _ _ => exact hdot (List.cons.inj hrest).1.symm
    | _ => simp at hrest
  | bracket cs hhead =>
    cases hpiece with
    | plain _ _ hopen _ => exact hopen (List.cons.inj hrest).1.symm
    | pair =>
      obtain ⟨-, rfl⟩ := List.cons.inj hrest
      exact hhead rfl
    | _ => simp at hrest

/-! ## Paths -/

/-- The text of segments that follow others: fields behind dots, and suffixes. -/
inductive TailDerives : List Char → List Segment → Prop
  | nil : TailDerives [] []
  | field {text rest : List Char} {name : String} {ss : List Segment} : FieldText text name rest →
    TailDerives rest ss → TailDerives ('.' :: text ++ rest) (.field name :: ss)
  | suffix {text rest : List Char} {s : Segment} {ss : List Segment} : SuffixText text s →
    TailDerives rest ss → TailDerives (text ++ rest) (s :: ss)

/-- The text of a path: a field or a suffix, and the segments that follow it. -/
inductive PathDerives : List Char → List Segment → Prop
  | field {text rest : List Char} {name : String} {ss : List Segment} : FieldText text name rest →
    TailDerives rest ss → PathDerives (text ++ rest) (.field name :: ss)
  | suffix {text rest : List Char} {s : Segment} {ss : List Segment} : SuffixText text s →
    TailDerives rest ss → PathDerives (text ++ rest) (s :: ss)

/-- A name that no piece extends ends where other segments begin. -/
theorem TailDerives.nameEnds {b : Bool} {rest : List Char} {ss : List Segment}
    (h : TailDerives rest ss) (hmax : Unextendable b rest) : NameEnds b rest := by
  cases h with
  | nil => exact .nil
  | field _ _ =>
    cases b with
    | false => exact .dot _ rfl
    | true => exact absurd rfl (hmax ['.'] ['.'] true _ .dot)
  | suffix htext _ =>
    obtain ⟨c, more, rfl, hclose, -⟩ := htext.readSuffix_append []
    exact .bracket _ (by simpa using hclose)

theorem NamePiece.ne_nil {b b' : Bool} {text chars : List Char} (h : NamePiece b text chars b') :
    text ≠ [] ∧ chars ≠ [] := by
  cases h <;> simp

/-- A run of pieces stands for no character exactly if it has no piece. -/
theorem NamePieces.eq_nil_iff {b b' : Bool} {text chars : List Char}
    (h : NamePieces b text chars b') : text = [] ↔ chars = [] := by
  cases h with
  | nil => simp
  | cons hpiece _ => simp [hpiece.ne_nil]

/-- A field in front of segments that follow it is read as it is derived. -/
theorem fieldText_iff {cs rest : List Char} {name : String} {ss : List Segment}
    (h : TailDerives rest ss) : (∃ text, cs = text ++ rest ∧ FieldText text name rest) ↔
      name.toList ≠ [] ∧ NameText false cs name.toList rest := by
  constructor
  · rintro ⟨text, rfl, hne, b, hpieces, hmax⟩
    exact ⟨fun hnil => hne (hpieces.eq_nil_iff.mpr hnil),
      nameText_iff.mpr ⟨text, b, rfl, hpieces, h.nameEnds hmax⟩⟩
  · rintro ⟨hne, hname⟩
    obtain ⟨text, b, rfl, hpieces, hends⟩ := nameText_iff.mp hname
    exact ⟨text, rfl, fun hnil => hne (hpieces.eq_nil_iff.mp hnil), b, hpieces, hends.unextendable⟩

theorem exists_fieldText {cs name rest : List Char} {ss : List Segment} (h : TailDerives rest ss)
    (hne : name ≠ []) (hname : NameText false cs name rest) :
    ∃ text, cs = text ++ rest ∧ FieldText text (String.ofList name) rest := by
  refine (fieldText_iff h).mpr ?_
  rw [String.toList_ofList]
  exact ⟨hne, hname⟩

theorem tailText_iff {cs : List Char} {ss : List Segment} : TailText cs ss ↔ TailDerives cs ss := by
  constructor
  · intro h
    induction h with
    | nil => exact .nil
    | @field cs name rest ss hne hname _ ih =>
      obtain ⟨text, rfl, hfield⟩ := exists_fieldText ih hne hname
      exact .field hfield ih
    | suffix htext _ ih => exact .suffix htext ih
  · intro h
    induction h with
    | nil => exact .nil
    | @field text rest name ss hfield htail ih =>
      obtain ⟨hne, hname⟩ := (fieldText_iff htail).mp ⟨text, rfl, hfield⟩
      have := TailText.field hne hname ih
      rwa [String.ofList_toList] at this
    | suffix htext _ ih => exact .suffix htext ih

/-- The texts that are read are those that are derivable, as the same segments. -/
theorem pathText_iff {cs : List Char} {ss : List Segment} : PathText cs ss ↔ PathDerives cs ss := by
  constructor
  · intro h
    cases h with
    | @field cs name rest ss hne hname htail =>
      have htail := tailText_iff.mp htail
      obtain ⟨text, rfl, hfield⟩ := exists_fieldText htail hne hname
      exact .field hfield htail
    | suffix htext htail => exact .suffix htext (tailText_iff.mp htail)
  · intro h
    cases h with
    | @field text rest name ss hfield htail =>
      obtain ⟨hne, hname⟩ := (fieldText_iff htail).mp ⟨text, rfl, hfield⟩
      have := PathText.field hne hname (tailText_iff.mpr htail)
      rwa [String.ofList_toList] at this
    | suffix htext htail => exact .suffix htext (tailText_iff.mpr htail)

/-! ## Numbers in a word -/

/-- The greatest number of a signed word of 64 bits. -/
def maxWord : Nat := 9223372036854775807

/-- A digit behind a number, none if the product or the sum does not fit into a word. -/
def pushDigit? (n d : Nat) : Option Nat :=
  if n * 10 ≤ maxWord ∧ n * 10 + d ≤ maxWord then some (n * 10 + d) else none

/-- `readNumber` with its number in a word; none if it leaves the word on the way. -/
def readNumberInWord (n : Nat) : List Char → Option (Read Nat)
  | [] => some (.ok (n, []))
  | c :: rest =>
    match digitValue? c with
    | none => some (.ok (n, c :: rest))
    | some d =>
      match pushDigit? n d with
      | none => none
      | some m =>
        if maxInteger < m then some (.error ⟨.integerTooLarge, c :: rest⟩)
        else readNumberInWord m rest

theorem digitValue?_le {c : Char} {d : Nat} (h : digitValue? c = some d) : d ≤ 9 := by
  unfold digitValue? at h
  split at h
  · rename_i hc
    have hhigh : c.toNat ≤ 57 := hc.2
    obtain rfl := Option.some.inj h
    have : '0'.toNat = 48 := rfl
    omega
  · cases h

/-- A number within range never leaves the word: the digit that takes it out of range still fits. -/
theorem readNumberInWord_eq {n : Nat} (hn : n ≤ maxInteger) (cs : List Char) :
    readNumberInWord n cs = some (readNumber n cs) := by
  induction cs generalizing n with
  | nil => rfl
  | cons c rest ih =>
    rw [readNumberInWord, readNumber]
    cases hd : digitValue? c with
    | none => rfl
    | some d =>
      have hle := digitValue?_le hd
      have hfits : pushDigit? n d = some (n * 10 + d) := by
        rw [pushDigit?, if_pos]
        simp only [maxInteger, maxWord] at hn ⊢
        omega
      simp only [hfits]
      by_cases hlarge : maxInteger < n * 10 + d
      · rw [if_pos hlarge, if_pos hlarge]
      · rw [if_neg hlarge, if_neg hlarge]
        exact ih (by omega)

/-! ## Rounds -/

/-- `readTail` in at most so many rounds, one for each segment; none if segments are left. -/
def readTailWithin (stop : Nat) : (rounds : Nat) → List Char → Option (Except Stop (List Step))
  | _, [] => some (.ok [])
  | 0, _ :: _ => none
  | rounds + 1, '.' :: rest =>
    match readField rest with
    | .error e => some (.error e)
    | .ok (s, after) =>
      (readTailWithin stop rounds after).map (Except.map (stepOf stop s rest after :: ·))
  | rounds + 1, '[' :: rest =>
    match readSuffix rest with
    | .error e => some (.error e)
    | .ok (s, after) =>
      (readTailWithin stop rounds after).map (Except.map (stepOf stop s ('[' :: rest) after :: ·))
  | _ + 1, c :: rest => some (.error (stopAt .separator (c :: rest)))

/-- Every round takes a character at least, so there are no more rounds than characters. -/
theorem readTailWithin_eq (stop : Nat) {rounds : Nat} {cs : List Char} (h : cs.length ≤ rounds) :
    readTailWithin stop rounds cs = some (readTail stop cs) := by
  fun_induction readTailWithin stop rounds cs with
  | case1 => rw [readTail]
  | case2 => simp at h
  | case3 rounds rest e he =>
    rw [readTail]
    split <;> simp_all
  | case4 rounds rest s after hread ih =>
    have := readField_length hread
    have hle : after.length ≤ rounds := by
      rw [List.length_cons] at h
      omega
    rw [ih hle, readTail_dot hread]
    rfl
  | case5 rounds rest e he =>
    rw [readTail]
    split <;> simp_all
  | case6 rounds rest s after hread ih =>
    have := readSuffix_length hread
    have hle : after.length ≤ rounds := by
      rw [List.length_cons] at h
      omega
    rw [ih hle, readTail_bracket hread]
    rfl
  | case7 rounds c rest hdot hopen =>
    rw [readTail]
    · exact hdot
    · exact hopen

/-! ## Reading -/

/-- A text is read as the segments of which it is derivable without the blanks around it, a blank
one as none. No number leaves its word on the way, and there are no more rounds than characters. -/
theorem Path.parse_iff_derives (text : String) (ss : List Segment) :
    ((Path.parse text).map Path.segments = .ok ss ↔
      (Text.trim text.toList = [] ∧ ss = []) ∨ PathDerives (Text.trim text.toList) ss) ∧
    (∀ cs, readNumberInWord 0 cs = some (readNumber 0 cs)) ∧
    ∀ stop cs, readTailWithin stop cs.length cs = some (readTail stop cs) := by
  refine ⟨?_, fun cs => ?_, fun stop cs => ?_⟩
  · rw [Path.parse_eq_ok, pathText_iff]
  · exact readNumberInWord_eq (Nat.zero_le _) cs
  · exact readTailWithin_eq stop (Nat.le_refl _)

end Crosswalk
