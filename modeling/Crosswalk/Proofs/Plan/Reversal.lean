import Crosswalk.Proofs.Decimal.Digits
import Crosswalk.Proofs.Plan.Writes

/-!
# Running a plan there and back

A plan of links between members that diverge on either side can be run to the right and back to the
left, and every value comes back to its place, as long as each converter undoes what it does to the
values that pass it. The order of the links plays no part.

* `Link.Undoes`: what a link does to a value, it undoes on the way back.
* `Plan.run_eq_written`, `Plan.extract_written`: a run is a series of writes that can be read back.
* `Plan.Reversible`: a plan whose links lead to places apart and undo what they do to a document.
* `Plan.Reversible.there_and_back`: the round trip.
-/

namespace Crosswalk

open Value

/-! ## Converting there and back -/

/-- A converter takes a value to a defined one and back. -/
def Converter.Undoes (c : Converter) (v : Value) : Prop :=
  ∃ w, w ≠ undefined ∧ c.toRight v = .ok w ∧ c.toLeft w = .ok v

/-- The converters of a link undo what they do to the values that pass them when `v` is taken to the
right. The format is passed by what the transform makes of `v`. -/
structure Link.Undoes (l : Link) (v : Value) : Prop where
  transform : v ≠ undefined → ∀ c, l.transform = some c → c.Undoes v
  format : v ≠ undefined → ∀ name c, l.format = some (name, c) →
    ∀ w, l.applyTransform .toRight v = .ok w → c.Undoes w

section Convert

variable {l : Link} {d : Direction} {v : Value}

@[simp] theorem Link.convert_undefined : l.convert d undefined = .ok undefined := by
  simp [Link.convert, isUndefined]

theorem Link.Undoes.transform_back (h : l.Undoes v) (hv : v ≠ undefined) :
    ∃ w, w ≠ undefined ∧ l.applyTransform .toRight v = .ok w ∧
      l.applyTransform .toLeft w = .ok v := by
  cases ht : l.transform with
  | none => exact ⟨v, hv, by simp [Link.applyTransform, ht], by simp [Link.applyTransform, ht]⟩
  | some c =>
    obtain ⟨w, hw, hright, hleft⟩ := h.transform hv c ht
    exact ⟨w, hw, by simp [Link.applyTransform, ht, Converter.apply, hright],
      by simp [Link.applyTransform, ht, Converter.apply, hleft]⟩

theorem Link.Undoes.format_back (h : l.Undoes v) (hv : v ≠ undefined) {w : Value}
    (hw : w ≠ undefined) (hpass : l.applyTransform .toRight v = .ok w) :
    ∃ x, x ≠ undefined ∧ l.applyFormat .toRight w = .ok x ∧ l.applyFormat .toLeft x = .ok w := by
  cases hf : l.format with
  | none => exact ⟨w, hw, by simp [Link.applyFormat, hf], by simp [Link.applyFormat, hf]⟩
  | some named =>
    obtain ⟨name, c⟩ := named
    obtain ⟨x, hx, hright, hleft⟩ := h.format hv name c hf w hpass
    exact ⟨x, hx, by simp [Link.applyFormat, hf, Converter.apply, hright],
      by simp [Link.applyFormat, hf, Converter.apply, hleft]⟩

/-- What a link makes of a value on its way to the right, `undefined` if it fails. -/
def Link.carry (l : Link) (v : Value) : Value :=
  match l.convert .toRight v with
  | .ok w => w
  | .error _ => undefined

/-- A link brings a value to the right, and what it brings there back to the left. What is missing
stays missing. -/
theorem Link.Undoes.convert_carry (h : l.Undoes v) :
    l.convert .toRight v = .ok (l.carry v) ∧ l.convert .toLeft (l.carry v) = .ok v := by
  have hcross : ∃ w, l.convert .toRight v = .ok w ∧ l.convert .toLeft w = .ok v := by
    by_cases hv : v = undefined
    · exact ⟨undefined, by simp [hv], by simp [hv]⟩
    obtain ⟨w, hw, htr, htl⟩ := h.transform_back hv
    obtain ⟨x, hx, hfr, hfl⟩ := h.format_back hv hw htr
    exact ⟨x, by simp [Link.convert, hv, htr, hfr, Except.bind],
      by simp [Link.convert, hx, hfl, htl, Except.bind]⟩
  obtain ⟨w, hright, hleft⟩ := hcross
  rw [show l.carry v = w by rw [Link.carry, hright]]
  exact ⟨hright, hleft⟩

end Convert

/-! ## Runs as series of writes -/

section Runs

variable {d : Direction} {document : Value} {value : Link → Value}

/-- The document in which every link of a plan has written its value. -/
def Plan.written (p : Plan) (d : Direction) (value : Link → Value) : Value :=
  writeAll (map []) ((p.along d).map fun l => (l.destination d, value l))

/-- The document that a plan makes when the values of its links are known. -/
theorem Plan.run_eq_written {p : Plan} (hpath : ∀ l ∈ p.links, (l.ends d).2.isPath)
    (hvalue : ∀ l ∈ p.links, l.convert d ((l.ends d).1.read document) = .ok (value l)) :
    p.run d none document = .ok (p.written d value) := by
  have hbrings : ∀ l ∈ p.links, l.value d document = value l :=
    fun l hl => Link.value_of_convert (hvalue l hl)
  refine Plan.run_eq_ok_iff.mpr ⟨fun l hl _ => by rw [hvalue l hl, hbrings l hl], ?_⟩
  rw [writesOf, List.filter_eq_self.mpr fun l hl => hpath l (Plan.mem_along.mp hl)]
  refine congrArg (writeAll (map [])) (List.map_congr_left fun l hl => ?_)
  rw [hbrings l (Plan.mem_along.mp hl)]

/-- Where no two links meet, each value reads back in the end. -/
theorem Plan.extract_written {p : Plan} (hmember : ∀ l ∈ p.links, MemberPath (l.destination d))
    (hdiv : p.links.Pairwise fun l m => Diverge (l.destination d) (m.destination d)) :
    ∀ l ∈ p.links, extract (l.destination d) (p.written d value) = value l := by
  have hmember' : ∀ w ∈ (p.along d).map fun l => (l.destination d, value l), MemberPath w.1 := by
    intro w hw
    obtain ⟨l, hl, rfl⟩ := List.mem_map.mp hw
    exact hmember l (Plan.mem_along.mp hl)
  have hdiv' : ((p.along d).map fun l => (l.destination d, value l)).Pairwise
      fun a b => Diverge a.1 b.1 :=
    List.pairwise_map.mpr (Plan.pairwise_along (fun _ _ => Diverge.symm) hdiv)
  intro l hl
  exact extract_writeAll hmember' hdiv' (fun w hw => ((hmember' w hw).vacant rfl rfl rfl).1)
    (fun w hw => ((hmember' w hw).vacant rfl rfl rfl).2) _
    (List.mem_map_of_mem (Plan.mem_along.mpr hl))

end Runs

/-! ## There and back -/

/-- A plan that can be run there and back with a document: all its links join two paths to members,
no two of them meet on either side, and each of them undoes what it does to its value. -/
structure Plan.Reversible (p : Plan) (document : Value) : Prop where
  left_path : ∀ l ∈ p.links, l.left.isPath
  right_path : ∀ l ∈ p.links, l.right.isPath
  left_member : ∀ l ∈ p.links, MemberPath l.left.segments
  right_member : ∀ l ∈ p.links, MemberPath l.right.segments
  left_diverge : p.links.Pairwise fun l m => Diverge l.left.segments m.left.segments
  right_diverge : p.links.Pairwise fun l m => Diverge l.right.segments m.right.segments
  undoes : ∀ l ∈ p.links, l.Undoes (extract l.left.segments document)

/-- A reversible plan takes a document to the right and back to the left. Every left path then leads
to what it led to before, and going to the right again gives the same document. -/
theorem Plan.Reversible.there_and_back (p : Plan) (document : Value)
    (h : p.Reversible document) :
    ∃ right back, p.run .toRight none document = .ok right ∧
      p.run .toLeft none right = .ok back ∧
      (∀ l ∈ p.links, extract l.left.segments back = extract l.left.segments document) ∧
      p.run .toRight none back = .ok right := by
  let original := fun l : Link => extract l.left.segments document
  let carried := fun l : Link => l.carry (original l)
  have hcarry : ∀ l ∈ p.links, l.convert .toRight (original l) = .ok (carried l) ∧
      l.convert .toLeft (carried l) = .ok (original l) :=
    fun l hl => (h.undoes l hl).convert_carry
  have hright : ∀ l ∈ p.links, extract l.right.segments (p.written .toRight carried) = carried l :=
    Plan.extract_written (d := .toRight) h.right_member h.right_diverge
  have hleft : ∀ l ∈ p.links, extract l.left.segments (p.written .toLeft original) = original l :=
    Plan.extract_written (d := .toLeft) h.left_member h.left_diverge
  refine ⟨p.written .toRight carried, p.written .toLeft original,
    Plan.run_eq_written h.right_path fun l hl => ?there,
    Plan.run_eq_written h.left_path fun l hl => ?back, hleft,
    Plan.run_eq_written h.right_path fun l hl => ?again⟩
  case there => rw [Link.ends, Side.read_of_isPath (h.left_path l hl), (hcarry l hl).1]
  case back =>
    rw [Link.ends, Side.read_of_isPath (h.right_path l hl), hright l hl, (hcarry l hl).2]
  case again =>
    rw [Link.ends, Side.read_of_isPath (h.left_path l hl), hleft l hl, (hcarry l hl).1]

/-! ## Two users -/

/-- A converter of values to lists of one value. -/
def Converter.single : Converter where
  toRight v := .ok (array [v])
  toLeft
    | array [v] => .ok v
    | _ => .error "expected a list of one value"

/-- The name and the age of the first user, and the name of the second one. -/
def usersPlan : Plan where
  links := [
    ⟨0, .path (.ofSegments [.field "users", .index 0, .field "name"]),
      .path (.ofSegments [.field "first", .field "name"]), some .single, none⟩,
    ⟨1, .path (.ofSegments [.field "users", .index 0, .field "age"]),
      .path (.ofSegments [.field "first", .field "age"]), none, some ("string", .scalarText)⟩,
    ⟨2, .path (.ofSegments [.field "users", .index 1, .field "name"]),
      .path (.ofSegments [.field "second"]), some .single, some ("json", .jsonText)⟩]
  order := ⟨.descending, .ascending⟩

/-- The second user is missing. -/
def oneUser : Value :=
  map [("users", array [map [("name", string "Ada"), ("age", int 36)]])]

theorem age_undoes : Converter.scalarText.Undoes (int 36) := by
  have hdigits : Decimal.digits 36 = ['3', '6'] := by
    rw [Decimal.digits_ge (by decide), Decimal.digits_lt (by decide)]
    rfl
  have hread : Decimal.int64OfText? "36" = some 36 := by decide
  refine ⟨string "36", by simp, ?right, ?left⟩
  case right =>
    show Except.ok (string (String.ofList (Decimal.digits 36))) = _
    rw [hdigits]
  case left =>
    show Except.ok (Converter.scalarOfText "36") = _
    rw [Converter.scalarOfText, hread]

theorem usersPlan_reversible : usersPlan.Reversible oneUser where
  left_path := by simp [usersPlan, Side.isPath]
  right_path := by simp [usersPlan, Side.isPath]
  left_member := by
    simp only [usersPlan, Side.segments, Path.segments_ofSegments, List.forall_mem_cons]
    refine ⟨⟨?_, _, rfl⟩, ⟨?_, _, rfl⟩, ⟨?_, _, rfl⟩, by simp⟩ <;>
      simp [Segment.InReach, maxPadding]
  right_member := by
    simp only [usersPlan, Side.segments, Path.segments_ofSegments, List.forall_mem_cons]
    refine ⟨⟨?_, _, rfl⟩, ⟨?_, _, rfl⟩, ⟨?_, _, rfl⟩, by simp⟩ <;> simp [Segment.InReach]
  left_diverge := by
    have hmember : Diverge [.field "users", .index 0, .field "name"]
        [.field "users", .index 0, .field "age"] := .cons _ (.cons _ (.field (by decide)))
    have huser : ∀ name, Diverge [.field "users", .index 0, .field name]
        [.field "users", .index 1, .field "name"] := fun _ => .cons _ (.index (by decide))
    simp [usersPlan, Side.segments, hmember, huser]
  right_diverge := by
    have hmember : Diverge [.field "first", .field "name"] [.field "first", .field "age"] :=
      .cons _ (.field (by decide))
    have huser : ∀ name, Diverge [.field "first", .field name] [.field "second"] :=
      fun _ => .field (by decide)
    simp [usersPlan, Side.segments, hmember, huser]
  undoes := by
    have hname : extract [.field "users", .index 0, .field "name"] oneUser = string "Ada" := by
      simp [oneUser, extract, fan, member, members, readIndex, position?, items, Members.get?]
    have hage : extract [.field "users", .index 0, .field "age"] oneUser = int 36 := by
      simp [oneUser, extract, fan, member, members, readIndex, position?, items, Members.get?,
        List.lookup_cons]
    have hmissing : extract [.field "users", .index 1, .field "name"] oneUser = undefined := by
      simp [oneUser, extract, fan, member, members, readIndex, position?, items, Members.get?]
    simp only [usersPlan, Side.segments, Path.segments_ofSegments, List.forall_mem_cons, hname,
      hage, hmissing]
    refine ⟨⟨fun _ c hc => ?name, by simp⟩, ⟨by simp, fun _ name c hc w hw => ?age⟩,
      ⟨fun h => absurd rfl h, fun h => absurd rfl h⟩, by simp⟩
    case name =>
      obtain rfl : Converter.single = c := Option.some.inj hc
      exact ⟨_, by simp, rfl, rfl⟩
    case age =>
      obtain ⟨rfl, rfl⟩ : "string" = name ∧ Converter.scalarText = c := by simpa using hc
      obtain rfl : int 36 = w := Except.ok.inj hw
      exact age_undoes

theorem usersPlan_there_and_back : usersPlan.Reversible oneUser ∧
    ∃ right back, usersPlan.run .toRight none oneUser = .ok right ∧
      usersPlan.run .toLeft none right = .ok back ∧
      (∀ l ∈ usersPlan.links,
        extract l.left.segments back = extract l.left.segments oneUser) ∧
      usersPlan.run .toRight none back = .ok right :=
  ⟨usersPlan_reversible, Plan.Reversible.there_and_back usersPlan oneUser usersPlan_reversible⟩

end Crosswalk
