import Crosswalk.Plan.Compiler
import Crosswalk.Proofs.Outcome
import Mathlib.Data.List.Basic

/-!
# What a compiler makes of rules

A compiler remembers the paths that it has read, also those of lists of rules that it then refused.
What it remembers is what it would read again, so its answers do not depend on what it was asked
before: each rule is compiled as if it were the only one.

* `PathMemo.Faithful`: a remembered path is the path of its text. Every call keeps this
  (`call_faithful`), and so does every list of calls (`after_faithful`).
* `linkOf`, `linksOf`: rules compiled without a memory.
* `Rule.Sound`, `Rule.HasLink`, `Rule.Faulty`: which rules have a link, which one, and what is wrong
  with the others.
* `linkOf_ok`, `linkOf_error`: a rule compiled on its own.
* `compile_after`: what a compiler with a past makes of a list of rules.
-/

namespace Crosswalk

/-! ## Memory -/

namespace PathMemo

variable {m m' : PathMemo} {text : String} {p : Path}

/-- A path is remembered for a text only if the text is read as that path. -/
def Faithful (m : PathMemo) : Prop :=
  ∀ text p, m.paths.lookup text = some p → Path.parse text = .ok p

theorem faithful_empty : empty.Faithful := by
  intro text p h
  cases h

/-- A faithful memory gives the path of a text whether it knows the text or not. -/
theorem Faithful.parse_eq (h : m.Faithful) (text : String) :
    (m.parse text).map Prod.fst = Path.parse text := by
  unfold parse
  cases hlookup : m.paths.lookup text with
  | some p => exact (h text p hlookup).symm
  | none => cases Path.parse text <;> rfl

/-- What is remembered from then on is faithful again. -/
theorem Faithful.of_parse (h : m.Faithful) (hparse : m.parse text = .ok (p, m')) :
    m'.Faithful := by
  unfold parse at hparse
  cases hlookup : m.paths.lookup text with
  | some q =>
    rw [hlookup] at hparse
    obtain ⟨-, rfl⟩ := Prod.mk.inj (Except.ok.inj hparse)
    exact h
  | none =>
    simp only [hlookup] at hparse
    obtain ⟨q, hq, hpair⟩ := map_eq_ok.mp hparse
    obtain ⟨-, rfl⟩ := Prod.mk.inj hpair
    intro other r hother
    rw [List.lookup_cons] at hother
    split at hother
    · next heq =>
      obtain rfl := Option.some.inj hother
      rw [beq_iff_eq.mp heq, hq]
    · exact h other r hother

end PathMemo

/-! ## Rules on their own -/

namespace Compiler

/-- A side with its path read, without a memory. -/
def readSide : SideText → Outcome Side
  | .literal v => .ok (.literal v)
  | .path text =>
    match Path.parse text with
    | .ok p => .ok (.path p)
    | .error f => .error f.toError

/-- The link of a rule, without a memory. -/
def linkOf (registry : Registry) (index : Nat) (r : Rule) : Outcome Link :=
  match r.sides with
  | .error f => .error (.rule index f.message)
  | .ok (leftText, rightText) => do
    let left ← readSide leftText
    let right ← readSide rightText
    let format ← findFormat registry index r.format
    .ok ⟨index, left, right, r.transform, format⟩

/-- The links of rules, the first of which has a place in its plan, without a memory. -/
def linksOf (registry : Registry) : (index : Nat) → List Rule → Outcome (List Link)
  | _, [] => .ok []
  | index, r :: rest => do
    let l ← linkOf registry index r
    let links ← linksOf registry (index + 1) rest
    .ok (l :: links)

variable {registry : Registry} {memo : PathMemo} {c : Compiler}

theorem compileSide_eq (h : memo.Faithful) (t : SideText) :
    (compileSide memo t).1 = readSide t ∧ (compileSide memo t).2.Faithful := by
  cases t with
  | literal v => exact ⟨rfl, h⟩
  | path text =>
    have heq := h.parse_eq text
    simp only [compileSide, readSide]
    cases hparse : memo.parse text with
    | error f =>
      rw [hparse] at heq
      rw [← heq]
      exact ⟨rfl, h⟩
    | ok r =>
      obtain ⟨p, memo'⟩ := r
      rw [hparse] at heq
      rw [← heq]
      exact ⟨rfl, h.of_parse hparse⟩

theorem compileRule_eq (registry : Registry) (h : memo.Faithful) (index : Nat) (r : Rule) :
    (compileRule registry memo index r).1 = linkOf registry index r ∧
      (compileRule registry memo index r).2.Faithful := by
  unfold compileRule linkOf
  cases r.sides with
  | error f => exact ⟨rfl, h⟩
  | ok sides =>
    obtain ⟨leftText, rightText⟩ := sides
    obtain ⟨hleft, hmemo⟩ := compileSide_eq h leftText
    simp only [← hleft]
    cases hl : compileSide memo leftText with
    | mk left memo' =>
      rw [hl] at hmemo
      cases left with
      | error e => exact ⟨rfl, hmemo⟩
      | ok left =>
        obtain ⟨hright, hmemo'⟩ := compileSide_eq hmemo rightText
        simp only [← hright]
        cases hr : compileSide memo' rightText with
        | mk right memo'' =>
          rw [hr] at hmemo'
          cases right with
          | error e => exact ⟨rfl, hmemo'⟩
          | ok right =>
            refine ⟨?_, hmemo'⟩
            cases findFormat registry index r.format <;> rfl

theorem compileRules_eq (registry : Registry) (h : memo.Faithful) (index : Nat)
    (rules : List Rule) :
    (compileRules registry memo index rules).1 = linksOf registry index rules ∧
      (compileRules registry memo index rules).2.Faithful := by
  induction rules generalizing memo index with
  | nil => exact ⟨rfl, h⟩
  | cons r rules ih =>
    obtain ⟨hlink, hmemo⟩ := compileRule_eq registry h index r
    unfold compileRules linksOf
    rw [← hlink]
    cases hr : compileRule registry memo index r with
    | mk link memo' =>
      rw [hr] at hmemo
      cases link with
      | error e => exact ⟨rfl, hmemo⟩
      | ok l =>
        obtain ⟨hlinks, hmemo'⟩ := ih hmemo (index + 1)
        refine ⟨?_, hmemo'⟩
        simp only [← hlinks]
        cases (compileRules registry memo' (index + 1) rules).1 <;> rfl

/-- A compiler with a faithful memory compiles rules as if it had none. -/
theorem compile_eq (h : c.memo.Faithful) (rules : List Rule) (order : OrderPolicy) :
    (c.compile rules order).1 = (linksOf c.registry 0 rules).map fun links => ⟨links, order⟩ := by
  rw [← (compileRules_eq c.registry h 0 rules).1]
  rfl

theorem compile_faithful (h : c.memo.Faithful) (rules : List Rule) (order : OrderPolicy) :
    (c.compile rules order).2.memo.Faithful := (compileRules_eq c.registry h 0 rules).2

/-! ## Calls -/

/-- What a compiler can be asked for. -/
inductive Call where
  | rules (rules : List Rule) (order : OrderPolicy)
  | sheet (sheet : Sheet)

/-- The answer of a compiler to a call, and the compiler afterwards. -/
def call (c : Compiler) : Call → Outcome Plan × Compiler
  | .rules rules order => c.compile rules order
  | .sheet sheet => c.compileSheet sheet

/-- A compiler after calls, whatever it answered. -/
def after (c : Compiler) (past : List Call) : Compiler :=
  past.foldl (fun c request => (c.call request).2) c

theorem call_registry (c : Compiler) (request : Call) :
    (c.call request).2.registry = c.registry := by
  cases request with
  | rules rules order => rfl
  | sheet sheet =>
    show (c.compileSheet sheet).2.registry = c.registry
    unfold compileSheet
    split <;> rfl

theorem call_faithful (h : c.memo.Faithful) (request : Call) :
    (c.call request).2.memo.Faithful := by
  cases request with
  | rules rules order => exact compile_faithful h rules order
  | sheet sheet =>
    show (c.compileSheet sheet).2.memo.Faithful
    unfold compileSheet
    split
    · exact h
    · exact compile_faithful h _ _

theorem after_registry (c : Compiler) (past : List Call) :
    (c.after past).registry = c.registry := by
  induction past generalizing c with
  | nil => rfl
  | cons request past ih => exact (ih _).trans (call_registry c request)

theorem after_faithful (h : c.memo.Faithful) (past : List Call) :
    (c.after past).memo.Faithful := by
  induction past generalizing c with
  | nil => exact h
  | cons request past ih => exact ih (call_faithful h request)

end Compiler

/-! ## What rules need -/

namespace Rule

variable {registry : Registry} {index : Nat} {r : Rule} {l : Link} {e : Error}

/-- A rule has two paths and no literal, or one path and a literal. -/
def TwoSided (r : Rule) : Prop :=
  (r.left.isSome ∧ r.right.isSome ∧ r.literal.isNone) ∨
    (r.left.isSome = !r.right.isSome ∧ r.literal.isSome)

/-- The text of a path, if there is one, can be read. -/
def Readable (text : Option String) : Prop := ∀ t ∈ text, ∃ p, Path.parse t = .ok p

/-- A rule that can be compiled. -/
structure Sound (registry : Registry) (r : Rule) : Prop where
  sides : r.TwoSided
  left : Readable r.left
  right : Readable r.right
  format : ∀ name ∈ r.format, ∃ c, registry.get? name = some c

/-- The first fault of a rule at a place: its sides, its left path, its right path, its format. -/
inductive Faulty (registry : Registry) (index : Nat) (r : Rule) : Error → Prop
  | sides {f : SideFault} : ¬ r.TwoSided → r.sides = .error f →
    Faulty registry index r (.rule index f.message)
  | left {t : String} {f : PathFault} : r.TwoSided → r.left = some t → Path.parse t = .error f →
    Faulty registry index r f.toError
  | right {t : String} {f : PathFault} : r.TwoSided → Readable r.left → r.right = some t →
    Path.parse t = .error f → Faulty registry index r f.toError
  | format {name message : String} : r.TwoSided → Readable r.left → Readable r.right →
    r.format = some name → registry.get? name = none →
    registry.find "format" name = .error message →
    Faulty registry index r (.rule index message)

/-- A side holds the path of its text, or the literal where it has no text. -/
inductive HasSide (text : Option String) (literal : Option Value) : Side → Prop
  | path {t : String} {p : Path} : text = some t → Path.parse t = .ok p →
    HasSide text literal (.path p)
  | literal {v : Value} : text = none → literal = some v → HasSide text literal (.literal v)

/-- A format is the registered converter with its name. -/
inductive HasFormat (registry : Registry) : Option String → Option (String × Converter) → Prop
  | none : HasFormat registry none none
  | some {name : String} {c : Converter} : registry.get? name = some c →
    HasFormat registry (some name) (some (name, c))

/-- The link of a rule at a place. -/
structure HasLink (registry : Registry) (index : Nat) (r : Rule) (l : Link) : Prop where
  index : l.index = index
  left : HasSide r.left r.literal l.left
  right : HasSide r.right r.literal l.right
  transform : l.transform = r.transform
  format : HasFormat registry r.format l.format

/-- A rule that has a fault cannot be compiled. -/
theorem Faulty.not_sound (h : r.Faulty registry index e) : ¬ r.Sound registry := by
  intro hsound
  cases h with
  | sides htwo _ => exact htwo hsound.sides
  | left _ ht hparse =>
    obtain ⟨p, hp⟩ := hsound.left _ ht
    rw [hparse] at hp
    cases hp
  | right _ _ ht hparse =>
    obtain ⟨p, hp⟩ := hsound.right _ ht
    rw [hparse] at hp
    cases hp
  | format _ _ _ hname hnone _ =>
    obtain ⟨c, hc⟩ := hsound.format _ hname
    rw [hnone] at hc
    cases hc

/-- What stands on a side of a rule. -/
inductive Stands (text : Option String) (literal : Option Value) : SideText → Prop
  | path {t : String} : text = some t → Stands text literal (.path t)
  | literal {v : Value} : text = none → literal = some v → Stands text literal (.literal v)

theorem stands_of_sides {leftText rightText : SideText}
    (h : r.sides = .ok (leftText, rightText)) :
    r.TwoSided ∧ Stands r.left r.literal leftText ∧ Stands r.right r.literal rightText := by
  unfold sides at h
  split at h
  case h_5 l rt hl hr hv =>
    obtain ⟨rfl, rfl⟩ := Prod.mk.inj (Except.ok.inj h)
    exact ⟨.inl (by simp [hl, hr, hv]), .path hl, .path hr⟩
  case h_6 l v hl hr hv =>
    obtain ⟨rfl, rfl⟩ := Prod.mk.inj (Except.ok.inj h)
    exact ⟨.inr (by simp [hl, hr, hv]), .path hl, .literal hr hv⟩
  case h_7 rt v hl hr hv =>
    obtain ⟨rfl, rfl⟩ := Prod.mk.inj (Except.ok.inj h)
    exact ⟨.inr (by simp [hl, hr, hv]), .literal hl hv, .path hr⟩
  all_goals cases h

theorem not_twoSided_of_sides {f : SideFault} (h : r.sides = .error f) : ¬ r.TwoSided := by
  unfold TwoSided
  unfold sides at h
  split at h
  case h_1 hl hr => simp [hl, hr]
  case h_2 hl hr hv => simp [hl, hr, hv]
  case h_3 hl hr hv => simp [hl, hr, hv]
  case h_4 hl hr hv => simp [hl, hr, hv]
  all_goals cases h

end Rule

theorem Registry.get?_of_find {registry : Registry} {role name : String} {c : Converter}
    (h : registry.find role name = .ok c) : registry.get? name = some c := by
  unfold Registry.find at h
  split at h
  · next hget => rw [hget, Except.ok.inj h]
  · split at h <;> cases h

theorem Registry.get?_of_find_error {registry : Registry} {role name message : String}
    (h : registry.find role name = .error message) : registry.get? name = none := by
  unfold Registry.find at h
  split at h
  · cases h
  · next hget => exact hget

/-! ## Rules and their links -/

namespace Compiler

open Rule

variable {registry : Registry} {index : Nat} {r : Rule} {rules : List Rule} {l : Link}
  {links : List Link} {e : Error} {text : Option String} {literal : Option Value} {t : SideText}

theorem readSide_ok {side : Side} (ht : Stands text literal t) (h : readSide t = .ok side) :
    HasSide text literal side ∧ Readable text := by
  cases ht with
  | literal hnone hv =>
    obtain rfl := Except.ok.inj h
    refine ⟨.literal hnone hv, ?_⟩
    intro t ht
    rw [hnone] at ht
    cases ht
  | path hsome =>
    simp only [readSide] at h
    split at h
    · next p hp =>
      obtain rfl := Except.ok.inj h
      refine ⟨.path hsome hp, ?_⟩
      intro t ht
      obtain rfl := Option.some.inj (hsome.symm.trans ht)
      exact ⟨p, hp⟩
    · cases h

theorem readSide_error (ht : Stands text literal t) (h : readSide t = .error e) :
    ∃ t f, text = some t ∧ Path.parse t = .error f ∧ e = f.toError := by
  cases ht with
  | literal _ _ => cases h
  | path hsome =>
    simp only [readSide] at h
    split at h
    · cases h
    · next f hf => exact ⟨_, f, hsome, hf, (Except.error.inj h).symm⟩

theorem findFormat_ok {name : Option String} {format : Option (String × Converter)}
    (h : findFormat registry index name = .ok format) : HasFormat registry name format := by
  unfold findFormat at h
  split at h
  · obtain rfl := Except.ok.inj h
    exact .none
  · split at h
    · next hfind =>
      obtain rfl := Except.ok.inj h
      exact .some (Registry.get?_of_find hfind)
    · cases h

theorem findFormat_error {name : Option String} (h : findFormat registry index name = .error e) :
    ∃ n message, name = some n ∧ registry.find "format" n = .error message ∧
      e = .rule index message := by
  unfold findFormat at h
  split at h
  · cases h
  · split at h
    · cases h
    · next message hfind => exact ⟨_, message, rfl, hfind, (Except.error.inj h).symm⟩

/-- A rule that has a link is sound, and the link is its own. -/
theorem linkOf_ok (h : linkOf registry index r = .ok l) :
    r.Sound registry ∧ r.HasLink registry index l := by
  unfold linkOf at h
  split at h
  · cases h
  · next leftText rightText hsides =>
    obtain ⟨htwo, hl, hr⟩ := stands_of_sides hsides
    obtain ⟨left, hleft, h⟩ := bind_eq_ok.mp h
    obtain ⟨right, hright, h⟩ := bind_eq_ok.mp h
    obtain ⟨format, hformat, h⟩ := bind_eq_ok.mp h
    obtain rfl := Except.ok.inj h
    obtain ⟨hasLeft, readsLeft⟩ := readSide_ok hl hleft
    obtain ⟨hasRight, readsRight⟩ := readSide_ok hr hright
    have hasFormat := findFormat_ok hformat
    refine ⟨⟨htwo, readsLeft, readsRight, ?_⟩, ⟨rfl, hasLeft, hasRight, rfl, hasFormat⟩⟩
    intro name hname
    rw [Option.mem_def.mp hname] at hasFormat
    cases hasFormat with
    | some hc => exact ⟨_, hc⟩

/-- A rule that has none has a fault, and the error is that of its first one. -/
theorem linkOf_error (h : linkOf registry index r = .error e) : r.Faulty registry index e := by
  unfold linkOf at h
  split at h
  · next f hsides =>
    obtain rfl := Except.error.inj h
    exact .sides (not_twoSided_of_sides hsides) hsides
  · next leftText rightText hsides =>
    obtain ⟨htwo, hl, hr⟩ := stands_of_sides hsides
    rcases bind_eq_error.mp h with hleft | ⟨left, hleft, h⟩
    · obtain ⟨t, f, ht, hparse, rfl⟩ := readSide_error hl hleft
      exact .left htwo ht hparse
    obtain ⟨-, readsLeft⟩ := readSide_ok hl hleft
    rcases bind_eq_error.mp h with hright | ⟨right, hright, h⟩
    · obtain ⟨t, f, ht, hparse, rfl⟩ := readSide_error hr hright
      exact .right htwo readsLeft ht hparse
    obtain ⟨-, readsRight⟩ := readSide_ok hr hright
    rcases bind_eq_error.mp h with hformat | ⟨format, -, h⟩
    · obtain ⟨name, message, hname, hfind, rfl⟩ := findFormat_error hformat
      exact .format htwo readsLeft readsRight hname (Registry.get?_of_find_error hfind) hfind
    · cases h

/-! ## Lists of rules -/

/-- A plan in which each rule of a list has its link at its own place. -/
structure Joins (registry : Registry) (rules : List Rule) (order : OrderPolicy) (plan : Plan) :
    Prop where
  order : plan.order = order
  length : plan.links.length = rules.length
  link : ∀ (k : Nat) (r : Rule) (l : Link), rules[k]? = some r → plan.links[k]? = some l →
    r.HasLink registry k l

/-- The first fault of the first rule of a list that has one. -/
def FirstFault (registry : Registry) (rules : List Rule) (e : Error) : Prop :=
  ∃ before r after, rules = before ++ r :: after ∧ (∀ s ∈ before, s.Sound registry) ∧
    r.Faulty registry before.length e

theorem FirstFault.exists_not_sound (h : FirstFault registry rules e) :
    ∃ r ∈ rules, ¬ r.Sound registry := by
  obtain ⟨before, r, after, rfl, -, hfaulty⟩ := h
  exact ⟨r, by simp, hfaulty.not_sound⟩

theorem linksOf_ok (h : linksOf registry index rules = .ok links) :
    (∀ r ∈ rules, r.Sound registry) ∧ links.length = rules.length ∧
      ∀ (k : Nat) (r : Rule) (l : Link), rules[k]? = some r → links[k]? = some l →
        r.HasLink registry (index + k) l := by
  induction rules generalizing index links with
  | nil =>
    obtain rfl := Except.ok.inj h
    exact ⟨by simp, rfl, by simp⟩
  | cons first rest ih =>
    unfold linksOf at h
    obtain ⟨l, hl, h⟩ := bind_eq_ok.mp h
    obtain ⟨ls, hls, h⟩ := bind_eq_ok.mp h
    obtain rfl := Except.ok.inj h
    obtain ⟨hsound, hlink⟩ := linkOf_ok hl
    obtain ⟨hsounds, hlength, hlinks⟩ := ih hls
    refine ⟨List.forall_mem_cons.mpr ⟨hsound, hsounds⟩, by simp [hlength], ?_⟩
    intro k r m hr hm
    cases k with
    | zero =>
      obtain rfl := Option.some.inj hr
      obtain rfl := Option.some.inj hm
      exact hlink
    | succ k =>
      have := hlinks k r m hr hm
      rwa [Nat.add_assoc, Nat.add_comm 1 k] at this

theorem linksOf_error (h : linksOf registry index rules = .error e) :
    ∃ before r after, rules = before ++ r :: after ∧ (∀ s ∈ before, s.Sound registry) ∧
      r.Faulty registry (index + before.length) e := by
  induction rules generalizing index with
  | nil => cases h
  | cons first rest ih =>
    unfold linksOf at h
    rcases bind_eq_error.mp h with hfirst | ⟨l, hl, h⟩
    · exact ⟨[], first, rest, rfl, by simp, linkOf_error hfirst⟩
    rcases bind_eq_error.mp h with hrest | ⟨ls, -, h⟩
    · obtain ⟨before, r, after, rfl, hbefore, hfaulty⟩ := ih hrest
      refine ⟨first :: before, r, after, rfl, ?_, ?_⟩
      · exact List.forall_mem_cons.mpr ⟨(linkOf_ok hl).1, hbefore⟩
      · rwa [Nat.add_assoc, Nat.add_comm 1] at hfaulty
    · cases h

/-- What a compiler makes of a list of rules after any calls: what a new compiler makes of it. It is
a plan exactly if every rule is sound, and then each rule has its link at its place. Otherwise the
error is the first fault of the first rule that has one. -/
theorem compile_after (registry : Registry) (past : List Call) (rules : List Rule)
    (order : OrderPolicy) :
    let outcome := (((ofRegistry registry).after past).compile rules order).1
    outcome = ((ofRegistry registry).compile rules order).1 ∧
      ((∃ plan, outcome = .ok plan) ↔ ∀ r ∈ rules, r.Sound registry) ∧
      (∀ plan, outcome = .ok plan → Joins registry rules order plan) ∧
      ∀ e, outcome = .error e → FirstFault registry rules e := by
  have hnew : (ofRegistry registry).memo.Faithful := PathMemo.faithful_empty
  intro outcome
  have houtcome : outcome = (linksOf registry 0 rules).map fun links => ⟨links, order⟩ := by
    have := compile_eq (after_faithful hnew past) rules order
    rwa [after_registry] at this
  have hok : ∀ plan, outcome = .ok plan →
      (∀ r ∈ rules, r.Sound registry) ∧ Joins registry rules order plan := by
    intro plan hplan
    rw [houtcome] at hplan
    obtain ⟨links, hlinks, rfl⟩ := map_eq_ok.mp hplan
    obtain ⟨hsound, hlength, hlink⟩ := linksOf_ok hlinks
    refine ⟨hsound, rfl, hlength, ?_⟩
    intro k r l hr hl
    have := hlink k r l hr hl
    rwa [Nat.zero_add] at this
  have herror : ∀ e, outcome = .error e → FirstFault registry rules e := by
    intro e he
    rw [houtcome] at he
    obtain ⟨before, r, after, hrules, hbefore, hfaulty⟩ := linksOf_error (map_eq_error.mp he)
    rw [Nat.zero_add] at hfaulty
    exact ⟨before, r, after, hrules, hbefore, hfaulty⟩
  refine ⟨?_, ⟨?_, ?_⟩, fun plan hplan => (hok plan hplan).2, herror⟩
  · rw [houtcome, compile_eq hnew rules order]
    rfl
  · rintro ⟨plan, hplan⟩
    exact (hok plan hplan).1
  · intro hsound
    cases hcase : outcome with
    | ok plan => exact ⟨plan, rfl⟩
    | error e =>
      obtain ⟨r, hr, hnot⟩ := (herror e hcase).exists_not_sound
      exact absurd (hsound r hr) hnot

/-! ## After a refusal -/

def nameRule : Rule := ⟨some " name", some "label", none, none, some "string"⟩

/-- A rule without a right side. -/
def loneRule : Rule := ⟨some "name", none, none, none, none⟩

/-- Two paths are remembered before the second rule is refused for its right path. -/
def refusedCalls : List Call :=
  [.rules [⟨some " name", some "label", none, none, none⟩, ⟨some "x", some "y[", none, none, none⟩]
    .declared, .sheet ⟨.declared, []⟩]

theorem nameRule_sound : nameRule.Sound .standard where
  sides := .inl ⟨rfl, rfl, rfl⟩
  left := by
    rintro t ⟨⟩
    exact ⟨⟨[⟨.field "name", "name", 1⟩], "name"⟩, by decide +kernel⟩
  right := by
    rintro t ⟨⟩
    exact ⟨⟨[⟨.field "label", "label", 0⟩], "label"⟩, by decide +kernel⟩
  format := by
    rintro name ⟨⟩
    exact ⟨Converter.scalarText, rfl⟩

theorem loneRule_not_sound : ¬ loneRule.Sound .standard := by
  intro h
  rcases h.sides with ⟨-, hright, -⟩ | ⟨-, hliteral⟩
  · cases hright
  · cases hliteral

theorem compile_after_refusedCalls :
    (∃ plan, (((ofRegistry .standard).after refusedCalls).compile [nameRule] .declared).1
        = .ok plan ∧ Joins .standard [nameRule] .declared plan) ∧
      ∃ e, (((ofRegistry .standard).after refusedCalls).compile [nameRule, loneRule] .declared).1
        = .error e ∧ FirstFault .standard [nameRule, loneRule] e := by
  obtain ⟨-, hsuccess, hjoins, -⟩ := compile_after .standard refusedCalls [nameRule] .declared
  obtain ⟨-, hrefusal, -, hfault⟩ :=
    compile_after .standard refusedCalls [nameRule, loneRule] .declared
  constructor
  · obtain ⟨plan, hplan⟩ := hsuccess.mpr (by simpa using nameRule_sound)
    exact ⟨plan, hplan, hjoins plan hplan⟩
  · cases hcase : (((ofRegistry .standard).after refusedCalls).compile
        [nameRule, loneRule] .declared).1 with
    | ok plan =>
      have hall := hrefusal.mp ⟨plan, hcase⟩
      exact absurd (hall loneRule (by simp)) loneRule_not_sound
    | error e => exact ⟨e, rfl, hfault e hcase⟩

end Compiler

end Crosswalk
