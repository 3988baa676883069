import Crosswalk.Proofs.Path.Rendering

/-!
# Paths that were read, written and read again

The written form of a path that was read from a text stands for the same segments, but for one kind
of text: one that opens with a backslash before a blank. The blank belongs to the first name and is
written without the backslash, so the next reading takes it for a blank around the path.

* `TailText.endsBlank`: only a text that ends with a blank has a last name that does.
* `PathText.startsBlank_name`: the first name begins with a blank if the text opens with an escaped
  one.
* `PathText.rereadable_iff`: in a text without blanks around it, this is the only thing that
  `Rereadable` asks beyond what every text has.
* `Path.rereads_iff`: which texts have a written form that is read as the same path.
-/

namespace Crosswalk

open Text

/-- A text opens with a backslash before a blank. -/
def opensEscapedBlank : List Char → Bool
  | '\\' :: c :: _ => isBlank c
  | _ => false

/-! ## The end of a text -/

/-- What is left behind a name is the end of the text. -/
theorem NameText.suffix {b : Bool} {cs name rest : List Char} (h : NameText b cs name rest) :
    rest <:+ cs := by
  induction h with
  | stop _ => exact List.suffix_rfl
  | escaped _ ih => exact (ih.trans (List.suffix_cons _ _)).trans (List.suffix_cons _ _)
  | pair _ ih => exact (ih.trans (List.suffix_cons _ _)).trans (List.suffix_cons _ _)
  | plain _ _ _ _ _ ih => exact ih.trans (List.suffix_cons _ _)

/-- A name that goes to the end of a text ends with its last character. -/
theorem NameText.getLast?_eq {b : Bool} {cs name : List Char} (h : NameText b cs name []) :
    cs.getLast? = name.getLast? := by
  generalize hrest : ([] : List Char) = rest at h
  induction h with
  | stop _ => rw [← hrest]
  | escaped _ ih => simp only [List.getLast?_cons, ih hrest, Option.getD_some]
  | pair _ ih => simp only [List.getLast?_cons, ih hrest, Option.getD_some]
  | plain _ _ _ _ _ ih => simp only [List.getLast?_cons, ih hrest]

/-- Only a text that ends with a blank has a last name that does. -/
theorem TailText.endsBlank {cs : List Char} {ss : List Segment} (h : TailText cs ss)
    (hlast : (ss.getLast?.any fun s => Text.endsBlank s.name) = true) :
    Text.endsBlank cs = true := by
  induction h with
  | nil => cases hlast
  | @field cs name rest ss _ hname htail ih =>
    cases ss with
    | nil =>
      cases htail
      have hname' : Text.endsBlank name = true := by simpa [Segment.name] using hlast
      have hcs : Text.endsBlank cs = true := by
        unfold Text.endsBlank at hname' ⊢
        rwa [hname.getLast?_eq]
      exact endsBlank_of_suffix (List.suffix_cons _ _) hcs
    | cons t ss =>
      rw [List.getLast?_cons_cons] at hlast
      have hrest := endsBlank_of_suffix hname.suffix (ih hlast)
      exact endsBlank_of_suffix (List.suffix_cons _ _) hrest
  | @suffix text rest s ss htext htail ih =>
    cases ss with
    | nil =>
      -- An index or a slice has no name that could end with a blank.
      cases htext <;> cases hlast
    | cons t ss =>
      rw [List.getLast?_cons_cons] at hlast
      exact endsBlank_of_suffix (List.suffix_append _ _) (ih hlast)

/-! ## The beginning of a text -/

/-- A name begins with a blank where the text does or where it opens with an escaped one. -/
theorem NameText.startsBlank_eq {b : Bool} {cs name rest : List Char}
    (h : NameText b cs name rest) (hne : name ≠ []) (hcs : startsBlank cs = false) :
    startsBlank name = opensEscapedBlank cs := by
  cases h with
  | stop _ => exact absurd rfl hne
  | escaped _ => rfl
  | pair _ => rfl
  | @plain _ c cs _ _ hslash _ _ _ _ =>
    have hopens : opensEscapedBlank (c :: cs) = false := by
      unfold opensEscapedBlank
      split
      · next heq => exact absurd (List.cons.inj heq).1 hslash
      · rfl
    rw [hopens]
    simpa [startsBlank] using hcs

/-- The first name of a text that does not begin with a blank. -/
theorem PathText.startsBlank_name {cs : List Char} {s : Segment} {ss : List Segment}
    (h : PathText cs (s :: ss)) (hcs : startsBlank cs = false) :
    startsBlank s.name = opensEscapedBlank cs := by
  cases h with
  | field hne hname _ =>
    simpa [Segment.name] using hname.startsBlank_eq hne hcs
  | suffix htext _ => cases htext <;> rfl

/-- The segments of a text without blanks around it are rereadable unless it opens with an escaped
blank. -/
theorem PathText.rereadable_iff {cs : List Char} {ss : List Segment} (h : PathText cs ss)
    (hstarts : startsBlank cs = false) (hends : endsBlank cs = false) :
    Rereadable ss ↔ opensEscapedBlank cs = false := by
  cases ss with
  | nil => cases h
  | cons s ss =>
    have hfirst := h.startsBlank_name hstarts
    have htail := pathText_cons_iff.mp h
    constructor
    · intro hread
      rw [← hfirst]
      exact hread.starts s rfl
    · intro hopens
      refine ⟨htail.named, htail.inRange, htail.separable, ?_, ?_⟩
      · rintro t ⟨⟩
        rw [hfirst, hopens]
      · intro t ht
        cases hblank : endsBlank t.name with
        | false => rfl
        | true =>
          have hcs := htail.endsBlank (by rw [ht, Option.any_some, hblank])
          split at hcs
          · -- The dot before a first field is not the last character: the text is not empty.
            have hne := h.ne_nil
            unfold Text.endsBlank at hcs hends
            rw [List.getLast?_cons_of_ne_nil hne, hends] at hcs
            cases hcs
          · rw [hends] at hcs
            cases hcs

/-! ## Reading again -/

theorem PathText.segments_ne_nil {cs : List Char} {ss : List Segment} (h : PathText cs ss) :
    ss ≠ [] := by
  cases h <;> simp

theorem rereadable_nil : Rereadable [] := ⟨by simp, by simp, .nil, by simp, by simp⟩

/-- A path is read again from its written form exactly if its segments are rereadable. -/
theorem Path.exists_reread_iff (p : Path) :
    (∃ q, Path.parse p.render = .ok q ∧ q.segments = p.segments ∧ q.render = p.render) ↔
      Rereadable p.segments := by
  constructor
  · rintro ⟨q, hq, hsegments, -⟩
    have hread : (Path.parse p.render).map Path.segments = .ok p.segments := by
      rw [hq, ← hsegments]
      rfl
    rw [Path.parse_eq_ok, Path.render, String.toList_ofList] at hread
    rcases hread with ⟨-, hnil⟩ | htext
    · rw [hnil]
      exact rereadable_nil
    · obtain ⟨s, ss, hss⟩ := List.exists_cons_of_ne_nil htext.segments_ne_nil
      rw [hss] at htext ⊢
      refine (pathText_cons_iff.mp htext).rereadable ?_
      have hdot : isBlank '.' = false := rfl
      split <;> simp [hdot]
  · intro h
    have hread : (Path.parse p.render).map Path.segments = .ok p.segments := by
      rw [Path.parse_eq_ok, Path.render, String.toList_ofList, h.trim_renderChars]
      by_cases hnil : p.segments = []
      · exact .inl ⟨by rw [hnil]; rfl, hnil⟩
      · exact .inr (.renderChars h.named h.inRange h.separable hnil)
    obtain ⟨q, hq, hsegments⟩ := map_eq_ok.mp hread
    exact ⟨q, hq, hsegments, by rw [Path.render, Path.render, hsegments]⟩

/-- The written form of a path that was read from a text is read as the same segments, with the same
written form, unless the text opens with an escaped blank. -/
theorem Path.rereads_iff {text : String} {p : Path} (h : Path.parse text = .ok p) :
    (∃ q, Path.parse p.render = .ok q ∧ q.segments = p.segments ∧ q.render = p.render) ↔
      opensEscapedBlank (trim text.toList) = false := by
  have hread : (Path.parse text).map Path.segments = .ok p.segments := by
    rw [h]
    rfl
  rw [Path.exists_reread_iff]
  rcases Path.parse_eq_ok.mp hread with ⟨hblank, hnil⟩ | htext
  · rw [hblank, hnil]
    exact iff_of_true rereadable_nil rfl
  · exact htext.rereadable_iff (startsBlank_trim _) (endsBlank_trim _)

/-- A dot in an escaped pair of brackets, and a blank in front of a name that is not the first. -/
def bracketedPath : Path where
  steps := [⟨.field "x[y.z]", "x\\[y.z\\]", 1⟩, ⟨.field " b", "\\ b", 10⟩,
    ⟨.slice ⟨1, some (-2)⟩, "[[1,-2]]", 13⟩]
  source := "x\\[y.z\\].\\ b[[1,-2]]"

theorem Path.rereads_bracketed :
    Path.parse " x\\[y.z\\].\\ b[[1,-2]] " = .ok bracketedPath ∧
      ∃ q, Path.parse bracketedPath.render = .ok q ∧ q.segments = bracketedPath.segments ∧
        q.render = bracketedPath.render := by
  have hparse : Path.parse " x\\[y.z\\].\\ b[[1,-2]] " = .ok bracketedPath := by decide +kernel
  exact ⟨hparse, (Path.rereads_iff hparse).mpr (by decide +kernel)⟩

/-- A name that begins with a blank. -/
def blankNamePath : Path := ⟨[⟨.field " a", "\\ a", 0⟩], "\\ a"⟩

/-- The blank is lost: the written form is read as a name without it. -/
theorem Path.not_rereads_blankName : Path.parse "\\ a" = .ok blankNamePath ∧
    ¬ ∃ q, Path.parse blankNamePath.render = .ok q ∧ q.segments = blankNamePath.segments ∧
      q.render = blankNamePath.render := by
  have hparse : Path.parse "\\ a" = .ok blankNamePath := by decide +kernel
  have hreparse : Path.parse blankNamePath.render = .ok ⟨[⟨.field "a", "a", 1⟩], "a"⟩ := by
    decide +kernel
  refine ⟨hparse, ?_⟩
  rintro ⟨q, hq, hsegments, -⟩
  rw [hreparse] at hq
  obtain rfl := Except.ok.inj hq
  revert hsegments
  decide

end Crosswalk
