import Crosswalk.Proofs.Path.Stops
import Crosswalk.Proofs.Text.Blank

/-!
# Where segments stand in a text

The texts of the segments of a path, with a dot before every field that is not the first, make up the
text from which the path was read, blanks around it aside. Each of them begins where the one before
it ends, and its place is told in bytes. Blanks in front of a text move the places and change nothing
else, whether the text is accepted or refused.

* `Tiling`: segments in a row that make up a text.
* `readTail_tiling`: what is read of segments that follow others.
* `Path.Tiles`: a path and the text from which it was read.
* `readTail_shift`, `Path.parse_padded`: a reading further back in a text.
* `Path.parse_tiles`: the places of segments, and how blanks move them.
-/

namespace Crosswalk

open Text

/-! ## Texts in a row -/

/-- What stands between a segment and the one before it. -/
def Segment.gap (s : Segment) : List Char := if s.isField then ['.'] else []

/-- The texts of segments that follow others, each behind its gap. -/
def tailTexts : List Step → List Char
  | [] => []
  | s :: rest => s.segment.gap ++ s.text.toList ++ tailTexts rest

/-- The texts of segments in a row. There is no gap before the first one. -/
def joinTexts : List Step → List Char
  | [] => []
  | s :: rest => s.text.toList ++ tailTexts rest

/-- A segment begins where the one before it and the gap between them end. -/
def Step.Adjoins (s t : Step) : Prop :=
  t.offset = s.offset + s.text.utf8ByteSize + byteLength t.segment.gap

/-- Segments that follow others make up a text that begins at a place. -/
structure Tiling (start : Nat) (cs : List Char) (steps : List Step) : Prop where
  texts_eq : cs = tailTexts steps
  first : ∀ s ∈ steps.head?, s.offset = start + byteLength s.segment.gap
  adjoins : steps.IsChain Step.Adjoins

section Tiling

variable {start : Nat} {cs : List Char} {s : Step} {steps : List Step}

theorem Tiling.nil (start : Nat) : Tiling start [] [] := ⟨rfl, by simp, .nil⟩

/-- A segment adjoins the segments that begin where it ends. -/
theorem Tiling.isChain_cons (h : Tiling (s.offset + s.text.utf8ByteSize) cs steps) :
    (s :: steps).IsChain Step.Adjoins :=
  List.isChain_cons.mpr ⟨h.first, h.adjoins⟩

/-- A segment behind its gap, in front of segments that begin where it ends. -/
theorem Tiling.cons {text : List Char} (htext : s.text.toList = text)
    (hplace : s.offset = start + byteLength s.segment.gap)
    (h : Tiling (s.offset + byteLength text) cs steps) :
    Tiling start (s.segment.gap ++ text ++ cs) (s :: steps) where
  texts_eq := by rw [tailTexts, htext, h.texts_eq]
  first := by
    rintro t ⟨⟩
    exact hplace
  adjoins := by
    rw [← htext, byteLength_toList] at h
    exact h.isChain_cons

/-- Every segment stands at its place. -/
theorem Tiling.stands (h : Tiling start cs steps) : ∀ s ∈ steps, ∃ before after,
    cs = before ++ s.text.toList ++ after ∧ start + byteLength before = s.offset := by
  induction steps generalizing start cs with
  | nil => simp
  | cons t rest ih =>
    have hplace : t.offset = start + byteLength t.segment.gap := h.first t rfl
    have hchain := List.isChain_cons.mp h.adjoins
    have hrest : Tiling (t.offset + t.text.utf8ByteSize) (tailTexts rest) rest :=
      ⟨rfl, hchain.1, hchain.2⟩
    have hcs : cs = t.segment.gap ++ t.text.toList ++ tailTexts rest := h.texts_eq
    intro s hs
    rcases List.mem_cons.mp hs with rfl | hs
    · exact ⟨s.segment.gap, tailTexts rest, hcs, hplace.symm⟩
    · obtain ⟨before, after, htexts, hstart⟩ := ih hrest s hs
      refine ⟨t.segment.gap ++ t.text.toList ++ before, after, ?_, ?_⟩
      · rw [hcs, htexts]
        simp
      · rw [byteLength_append, byteLength_append, byteLength_toList]
        omega

end Tiling

/-! ## Readers -/

/-- The text of a segment stands in front of what is left behind it. -/
theorem text_stepOf (stop : Nat) (s : Segment) (text rest : List Char) :
    (stepOf stop s (text ++ rest) rest).text.toList = text := by
  simp [stepOf]

/-- What a reader took stands in front of what it left. -/
theorem readField_append {cs rest : List Char} {s : Segment} (h : readField cs = .ok (s, rest)) :
    s.isField = true ∧ ∃ text, cs = text ++ rest := by
  obtain ⟨name, -, hname, rfl⟩ := readField_eq_ok.mp h
  obtain ⟨text, -, hcs, -, -⟩ := nameText_iff.mp hname
  exact ⟨rfl, text, hcs⟩

theorem readSuffix_append {cs rest : List Char} {s : Segment} (h : readSuffix cs = .ok (s, rest)) :
    s.isField = false ∧ ∃ text, '[' :: cs = text ++ rest := by
  obtain ⟨text, hcs, htext⟩ := readSuffix_eq_ok.mp h
  exact ⟨htext.isField_eq_false, text, hcs⟩

theorem readFirst_append {cs rest : List Char} {s : Segment} (h : readFirst cs = .ok (s, rest)) :
    ∃ text, cs = text ++ rest := by
  rcases readFirst_eq_ok.mp h with ⟨name, -, hname, -⟩ | ⟨text, hcs, -⟩
  · obtain ⟨text, -, hcs, -, -⟩ := nameText_iff.mp hname
    exact ⟨text, hcs⟩
  · exact ⟨text, hcs⟩

/-- A segment that was read behind its gap, in front of segments that make up the rest of the text. -/
theorem Tiling.stepOf {stop : Nat} {s : Segment} {cs text rest : List Char} {steps : List Step}
    (hcs : cs = s.gap ++ text ++ rest) (hstop : byteLength cs ≤ stop)
    (h : Tiling (stop - byteLength rest) rest steps) :
    Tiling (stop - byteLength cs) cs (stepOf stop s (text ++ rest) rest :: steps) := by
  have hoffset : (Crosswalk.stepOf stop s (text ++ rest) rest).offset
      = stop - (byteLength text + byteLength rest) := by
    rw [Crosswalk.stepOf, byteLength_append]
  rw [hcs, byteLength_append, byteLength_append] at hstop ⊢
  refine .cons (text_stepOf stop s text rest) ?_ ?_
  · show _ = _ + byteLength s.gap
    omega
  · have hend : stop - (byteLength text + byteLength rest) + byteLength text
        = stop - byteLength rest := by omega
    rwa [hoffset, hend]

/-- The segments that are read behind others make up the rest of the text. -/
theorem readTail_tiling {stop : Nat} {cs : List Char} {steps : List Step}
    (h : readTail stop cs = .ok steps) (hstop : byteLength cs ≤ stop) :
    Tiling (stop - byteLength cs) cs steps := by
  fun_induction readTail stop cs generalizing steps with
  | case1 =>
    obtain rfl := Except.ok.inj h
    exact .nil _
  | case2 => cases h
  | case3 rest s after hread ih =>
    obtain ⟨steps, htail, rfl⟩ := map_eq_ok.mp h
    obtain ⟨hfield, text, rfl⟩ := readField_append hread
    have hgap : s.gap = ['.'] := if_pos hfield
    have hcs : '.' :: (text ++ after) = s.gap ++ text ++ after := by simp [hgap]
    have hafter := Nat.le_trans (byteLength_le_of_append hcs) hstop
    exact (ih htail hafter).stepOf hcs hstop
  | case4 => cases h
  | case5 rest s after hread ih =>
    obtain ⟨steps, htail, rfl⟩ := map_eq_ok.mp h
    obtain ⟨hsuffix, text, hcs⟩ := readSuffix_append hread
    have hgap : s.gap = [] := if_neg (by simp [hsuffix])
    have hcut : '[' :: rest = s.gap ++ text ++ after := by rw [hgap, List.nil_append, hcs]
    have hafter := Nat.le_trans (byteLength_le_of_append hcs) hstop
    have htiles := (ih htail hafter).stepOf hcut hstop
    rwa [← hcs] at htiles
  | case6 => cases h

/-- The segments of a path make up its text. -/
theorem readSteps_tiling {stop : Nat} {cs : List Char} {steps : List Step}
    (h : readSteps stop cs = .ok steps) (hstop : byteLength cs ≤ stop) :
    cs = joinTexts steps ∧ steps.IsChain Step.Adjoins ∧ ∀ s ∈ steps, ∃ before after,
      cs = before ++ s.text.toList ++ after ∧ stop - byteLength cs + byteLength before = s.offset := by
  unfold readSteps at h
  split at h
  · cases h
  next s rest hfirst =>
  obtain ⟨steps, htail, rfl⟩ := map_eq_ok.mp h
  obtain ⟨text, rfl⟩ := readFirst_append hfirst
  have htext := text_stepOf stop s text rest
  have hlen := byteLength_append text rest
  have hrest := readTail_tiling htail (by omega)
  have hend : stop - byteLength rest = (stepOf stop s (text ++ rest) rest).offset
      + (stepOf stop s (text ++ rest) rest).text.utf8ByteSize := by
    rw [← byteLength_toList, htext]
    show _ = stop - byteLength (text ++ rest) + _
    omega
  refine ⟨?_, (hend ▸ hrest).isChain_cons, ?_⟩
  · rw [joinTexts, htext, ← hrest.texts_eq]
  · intro t ht
    rcases List.mem_cons.mp ht with rfl | ht
    · exact ⟨[], rest, by rw [htext]; rfl, rfl⟩
    · obtain ⟨before, after, hbefore, hplace⟩ := hrest.stands t ht
      refine ⟨text ++ before, after, ?_, ?_⟩
      · conv => lhs; rw [hbefore]
        simp
      · have hsum := byteLength_append text before
        omega

/-! ## Paths -/

/-- A path and the text from which it was read, between blanks. -/
structure Path.Tiles (p : Path) (text lead trail : String) : Prop where
  /-- The source is the text without the blanks around it. -/
  text_eq : text = lead ++ p.source ++ trail
  lead_blank : ∀ c ∈ lead.toList, isBlank c = true
  trail_blank : ∀ c ∈ trail.toList, isBlank c = true
  source_starts : startsBlank p.source.toList = false
  source_ends : endsBlank p.source.toList = false
  /-- The texts of the segments make up the source. -/
  source_eq : p.source.toList = joinTexts p.steps
  /-- The text of a segment stands at its place in the whole text. -/
  stands : ∀ s ∈ p.steps, ∃ before after : String,
    text = before ++ s.text ++ after ∧ before.utf8ByteSize = s.offset
  /-- Nothing but a dot stands between two segments. -/
  adjoins : p.steps.IsChain Step.Adjoins

theorem Path.parse_ok_cases {text : String} {p : Path} (h : Path.parse text = .ok p) :
    (trim text.toList = [] ∧ p = root) ∨ ∃ steps,
      readSteps (byteLength (trimEnd text.toList)) (trim text.toList) = .ok steps ∧
        p = ⟨steps, String.ofList (trim text.toList)⟩ := by
  simp only [Path.parse] at h
  split at h
  · next hblank => exact .inl ⟨hblank, (Except.ok.inj h).symm⟩
  · split at h
    · cases h
    · next steps hread => exact .inr ⟨steps, hread, (Except.ok.inj h).symm⟩

theorem Path.exists_tiles {text : String} {p : Path} (h : Path.parse text = .ok p) :
    ∃ lead trail, p.Tiles text lead trail := by
  obtain ⟨lead, trail, hend, htext, hlead, htrail⟩ := exists_trim text.toList
  have hsource : p.source = String.ofList (trim text.toList) := by
    rcases Path.parse_ok_cases h with ⟨hblank, rfl⟩ | ⟨steps, -, rfl⟩
    · rw [hblank]; rfl
    · rfl
  have hsteps : p.source.toList = joinTexts p.steps ∧ p.steps.IsChain Step.Adjoins ∧
      ∀ s ∈ p.steps, ∃ before after, trim text.toList = before ++ s.text.toList ++ after ∧
        byteLength (lead ++ before) = s.offset := by
    rcases Path.parse_ok_cases h with ⟨-, rfl⟩ | ⟨steps, hread, rfl⟩
    · exact ⟨rfl, .nil, by simp [root]⟩
    · rw [hend, byteLength_append] at hread
      obtain ⟨hjoin, hchain, hstands⟩ := readSteps_tiling hread (by omega)
      refine ⟨by rw [String.toList_ofList]; exact hjoin, hchain, fun s hs => ?_⟩
      obtain ⟨before, after, hbefore, hplace⟩ := hstands s hs
      refine ⟨before, after, hbefore, ?_⟩
      rw [byteLength_append]
      omega
  refine ⟨String.ofList lead, String.ofList trail, ?_⟩
  exact {
    text_eq := by
      rw [hsource, ← String.ofList_append, ← String.ofList_append, ← htext, String.ofList_toList]
    lead_blank := by rwa [String.toList_ofList]
    trail_blank := by rwa [String.toList_ofList]
    source_starts := by
      rw [hsource, String.toList_ofList]
      exact startsBlank_trim _
    source_ends := by
      rw [hsource, String.toList_ofList]
      exact endsBlank_trim _
    source_eq := hsteps.1
    stands := by
      intro s hs
      obtain ⟨before, after, hbefore, hplace⟩ := hsteps.2.2 s hs
      refine ⟨String.ofList (lead ++ before), String.ofList (after ++ trail), ?_, ?_⟩
      · rw [hbefore] at htext
        rw [← String.toList_inj, htext]
        simp
      · rw [utf8ByteSize_ofList, hplace]
    adjoins := hsteps.2.1 }

/-! ## Texts further back -/

/-- A segment that stands further back. -/
def Step.shift (n : Nat) (s : Step) : Step := { s with offset := s.offset + n }

/-- A path whose segments stand further back. -/
def Path.shift (n : Nat) (p : Path) : Path := { p with steps := p.steps.map (Step.shift n) }

section Shift

variable {stop : Nat} {cs : List Char} {s : Segment} {text rest : List Char}

theorem stepOf_shift (n : Nat) (h : byteLength text ≤ stop) :
    stepOf (stop + n) s text rest = (stepOf stop s text rest).shift n := by
  simp only [stepOf, Step.shift, Step.mk.injEq, true_and]
  omega

/-- Segments that follow others are read in the same way further back in a text. -/
theorem readTail_shift (n : Nat) (h : byteLength cs ≤ stop) :
    readTail (stop + n) cs = (readTail stop cs).map (List.map (Step.shift n)) := by
  fun_induction readTail stop cs with
  | case1 => rw [readTail]; rfl
  | case2 rest e hread => exact readTail_dot_error hread
  | case3 rest s after hread ih =>
    obtain ⟨-, text, hrest⟩ := readField_append hread
    have hdot : byteLength ('.' :: rest) = 1 + byteLength rest := rfl
    have hafter := byteLength_le_of_append hrest
    rw [readTail_dot hread, ih (by omega), stepOf_shift n (by omega)]
    cases readTail stop after <;> rfl
  | case4 rest e hread => exact readTail_bracket_error hread
  | case5 rest s after hread ih =>
    obtain ⟨-, text, hrest⟩ := readSuffix_append hread
    have hafter := byteLength_le_of_append hrest
    rw [readTail_bracket hread, ih (by omega), stepOf_shift n h]
    cases readTail stop after <;> rfl
  | case6 c rest hdot hopen =>
    rw [readTail]
    · rfl
    · exact hdot
    · exact hopen

theorem readSteps_shift (n : Nat) (h : byteLength cs ≤ stop) :
    readSteps (stop + n) cs = (readSteps stop cs).map (List.map (Step.shift n)) := by
  unfold readSteps
  cases hfirst : readFirst cs with
  | error e => rfl
  | ok r =>
    obtain ⟨s, rest⟩ := r
    obtain ⟨text, hcs⟩ := readFirst_append hfirst
    have hrest := byteLength_le_of_append hcs
    simp only [readTail_shift n (Nat.le_trans hrest h), stepOf_shift n h]
    cases readTail stop rest <;> rfl

end Shift

/-- Blanks around a text move the places that are told of it, and change nothing else. -/
theorem Path.parse_padded {lead trail : String} (text : String)
    (hlead : ∀ c ∈ lead.toList, isBlank c = true) (htrail : ∀ c ∈ trail.toList, isBlank c = true) :
    Path.parse (lead ++ text ++ trail) =
      match Path.parse text with
      | .ok p => .ok (p.shift lead.utf8ByteSize)
      | .error f => .error ⟨f.problem, f.offset + lead.utf8ByteSize, lead ++ text ++ trail⟩ := by
  have htext : (lead ++ text ++ trail).toList = lead.toList ++ text.toList ++ trail.toList := by
    rw [String.toList_append, String.toList_append]
  have htrim : trim (lead ++ text ++ trail).toList = trim text.toList := by
    rw [htext, trim_padded hlead htrail]
  by_cases hblank : trim text.toList = []
  · simp only [Path.parse, htrim, hblank, if_true]
    rfl
  have hstop : byteLength (trimEnd (lead ++ text ++ trail).toList)
      = byteLength (trimEnd text.toList) + lead.utf8ByteSize := by
    rw [htext, trimEnd_padded htrail (exists_of_trim_ne_nil hblank), byteLength_append,
      byteLength_toList, Nat.add_comm]
  have hfits : byteLength (trim text.toList) ≤ byteLength (trimEnd text.toList) := by
    obtain ⟨front, -, hend, -⟩ := exists_trim text.toList
    exact byteLength_le_of_append hend
  have hread := readSteps_shift lead.utf8ByteSize hfits
  simp only [Path.parse, htrim, hstop, hblank, if_false, hread]
  cases hsteps : readSteps (byteLength (trimEnd text.toList)) (trim text.toList) with
  | ok steps => rfl
  | error e =>
    obtain ⟨read, hcs, -⟩ := readSteps_halts hsteps
    have hrest := byteLength_le_of_append hcs
    simp only [Except.map, Except.error.injEq, PathFault.mk.injEq, true_and, and_true]
    omega

/-- The texts of the segments of a path make up the text from which it was read, blanks around it
aside, and each of them stands at its place. Blanks around a text leave it accepted or refused as it
was: the segments and their texts, the source, and the message stay the same, and every place moves
by the length in bytes of the blanks in front. -/
theorem Path.parse_tiles (text : String) :
    (∀ p, Path.parse text = .ok p → ∃ lead trail, p.Tiles text lead trail) ∧
    ∀ lead trail : String, (∀ c ∈ lead.toList, isBlank c = true) →
      (∀ c ∈ trail.toList, isBlank c = true) → Path.parse (lead ++ text ++ trail) =
        match Path.parse text with
        | .ok p => .ok (p.shift lead.utf8ByteSize)
        | .error f => .error ⟨f.problem, f.offset + lead.utf8ByteSize, lead ++ text ++ trail⟩ :=
  ⟨fun _ => Path.exists_tiles, fun _ _ => Path.parse_padded text⟩

/-- Letters of two bytes, an index, a name that begins with a blank. -/
def sizesPath : Path where
  steps := [⟨.field "größe", "größe", 1⟩, ⟨.index (-1), "[-1]", 8⟩, ⟨.field " m", "\\ m", 13⟩]
  source := "größe[-1].\\ m"

/-- A blank of three bytes in front, a line break behind. -/
theorem Path.parse_tiles_sizesPath : Path.parse " größe[-1].\\ m" = .ok sizesPath ∧
    (∃ lead trail, sizesPath.Tiles " größe[-1].\\ m" lead trail) ∧
    (∀ c ∈ "\u3000".toList, isBlank c = true) ∧ (∀ c ∈ "\n".toList, isBlank c = true) ∧
    Path.parse ("\u3000" ++ " größe[-1].\\ m" ++ "\n") = .ok (sizesPath.shift 3) := by
  have hparse : Path.parse " größe[-1].\\ m" = .ok sizesPath := by decide +kernel
  have hlead : ∀ c ∈ "\u3000".toList, isBlank c = true :=
    List.all_eq_true.mp (by decide +kernel)
  have htrail : ∀ c ∈ "\n".toList, isBlank c = true :=
    List.all_eq_true.mp (by decide +kernel)
  refine ⟨hparse, (Path.parse_tiles _).1 _ hparse, hlead, htrail, ?_⟩
  have hpadded := (Path.parse_tiles " größe[-1].\\ m").2 _ _ hlead htrail
  rw [hparse] at hpadded
  exact hpadded

end Crosswalk
