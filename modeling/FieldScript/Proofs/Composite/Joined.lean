import FieldScript.Proofs.Composite.Carried
import FieldScript.Proofs.Composite.FieldNames
import FieldScript.Proofs.Composite.Merged

/-!
# Sources one behind the other

What is extracted from two sources that are joined by a line feed is what is extracted from each of them.

The walk looks back at all tokens that it has passed, but not across the end of a source that ends with a closing brace
outside of containers: in front of the brace that opens a container stand two names, and the search for the name of a
field has found it before it gets there. `Follows` relates the states of a walk over a part to those of the walk over the
whole.

* `step_cases`: what a step can do, said once; `walk_eq_walkState`: a walk takes steps.
* `Follows.pass`, `Follows.take`: a step over a token and over a body.
* `step_carried`, `walkState_carried`: what a step over the part does, a step over the whole does further behind, and so
  does a walk.
* `walkState_ignored`: what is left at the end of the part is skipped.

The result is `extract_joined`.
-/

namespace FieldScript

open Text
open Schema (Cursor Lexes Ignored)
open Token (Halts halts_nil halts_cons)

/-- Two sources with a line feed between them. -/
def Source.joined (s₁ s₂ : Source) : Source := ⟨s₁.chars ++ '\n' :: s₂.chars⟩

theorem Source.joined_size (s₁ s₂ : Source) : (s₁.joined s₂).size = s₁.size + 1 + s₂.size := by
  have hline : '\n'.utf8Size = 1 := rfl
  rw [size, joined, byteLength_append, byteLength_cons, hline, ← Nat.add_assoc]
  rfl

namespace Extract

/-! ## Steps of a walk

A walk over a composite source is a step taken again and again: over a token outside of bodies, or over a body. Its state
at the end tells more than what it has found: which token it has passed last, and whether it is still in a container. -/

section Steps

variable {source : Source} {c next mid after : Cursor} {s s' : State} {blank w : List Char} {t : Schema.Token}
  {container : Container} {field : String} {expr : Expr} {close : Span} {fuel : Nat}

/-- A step of a walk from a place and a state on; at the end of the source there is none. -/
def step (source : Source) (c : Cursor) (s : State) : Except ExtractFault (Option (Cursor × State)) := do
  let (t, c) ← Extract.next c
  if t.kind = .eof then return none
  match s.container with
  | some container =>
    if t.kind = .openBrace && s.depth = 0 then
      match fieldName? ⟨false, false, false⟩ s.before with
      | none => .error (.missingName container t.span)
      | some field =>
        let (expr, close, c) ← body source t.span.stop
        return some (c, s.take ⟨container, field, t.span.merge close⟩ expr)
    else return some (c, s.pass t)
  | none => return some (c, s.pass t)

/-- The state in which a walk ends. The fuel bounds the number of steps. -/
def walkState (source : Source) : Nat → Cursor → State → Except ExtractFault State
  | 0, _, s => return s
  | fuel + 1, c, s => do
    match ← step source c s with
    | none => return s
    | some (c, s) => walkState source fuel c s

/-- The state at the end of a source. -/
def lastState (source : Source) : Except ExtractFault State :=
  walkState source (source.size + 1) (Cursor.ofOffset source 0) .first

theorem walk_eq_walkState (source : Source) (fuel : Nat) (c : Cursor) (s : State) :
    walk source fuel c s = (walkState source fuel c s).map (·.found) := by
  induction fuel generalizing c s with
  | zero => rfl
  | succ fuel ih =>
      unfold walk walkState step
      cases Extract.next c with
      | error fault => rfl
      | ok found =>
          obtain ⟨t, next⟩ := found
          simp only [bind, Except.bind, pure, Except.pure]
          by_cases hend : t.kind = .eof
          · simp only [if_pos hend]
            rfl
          simp only [if_neg hend]
          obtain ⟨before, container, depth, x⟩ := s
          cases container with
          | none => exact ih _ _
          | some container =>
              by_cases hopens : (t.kind = .openBrace && depth = 0 : Bool) = true
              · simp only [if_pos hopens]
                cases fieldName? ⟨false, false, false⟩ before with
                | none => rfl
                | some field =>
                    cases body source t.span.stop with
                    | error fault => rfl
                    | ok found => exact ih found.2.2 _
              · simp only [if_neg hopens]
                exact ih _ _

theorem extract_eq_lastState (source : Source) :
    extract source = ((lastState source).map (·.found)).mapError (·.toDiagnostic source) := by
  rw [lastState, ← walk_eq_walkState]
  rfl

/-! ## What a step does -/

theorem next_eq (h : Schema.scanToken c = .ok (t, next)) : Extract.next c = .ok (t, next) := by
  rw [Extract.next, h]
  rfl

theorem step_end (h : (Schema.skipIgnored false c.offset c.rest).rest = []) : step source c s = .ok none := by
  obtain ⟨t, next, hscan, hend⟩ := Schema.scanToken_nil h
  simp only [step, next_eq hscan, bind, Except.bind, pure, Except.pure, if_pos hend]

/-- A token that opens no body is passed. -/
theorem step_token (hlex : Lexes c blank w t next) (hopens : ¬ s.Opens t) :
    step source c s = .ok (some (next, s.pass t)) := by
  simp only [step, next_eq hlex.scan, bind, Except.bind, pure, Except.pure, if_neg hlex.spells.ne_eof]
  cases hcontainer : s.container with
  | none => rfl
  | some container =>
      have hnot : ¬ (t.kind = .openBrace && s.depth = 0 : Bool) = true := by
        intro hbrace
        simp only [Bool.and_eq_true, decide_eq_true_eq] at hbrace
        exact hopens ⟨by rw [hcontainer]; rfl, hbrace.1, hbrace.2⟩
      simp only [if_neg hnot]

/-- A token that opens the body of a field is passed with the body. -/
theorem step_body (hlex : Lexes c blank w t mid) (hkind : t.kind = .openBrace) (hcontainer : s.container = some container)
    (hdepth : s.depth = 0) (hfield : fieldName? ⟨false, false, false⟩ s.before = some field)
    (hbody : body source t.span.stop = .ok (expr, close, after)) :
    step source c s = .ok (some (after, s.take ⟨container, field, t.span.merge close⟩ expr)) := by
  have hbrace : (t.kind = .openBrace && s.depth = 0 : Bool) = true := by simp [hkind, hdepth]
  simp only [step, next_eq hlex.scan, bind, Except.bind, pure, Except.pure, if_neg hlex.spells.ne_eof, hcontainer,
    if_pos hbrace, hfield, hbody]

/-- A step finds the end of the source, a token that opens no body, or a body. -/
theorem step_cases {r : Option (Cursor × State)} (h : step source c s = .ok r) :
    (r = none ∧ (Schema.skipIgnored false c.offset c.rest).rest = []) ∨
    (∃ blank w t next, r = some (next, s.pass t) ∧ Lexes c blank w t next ∧ ¬ s.Opens t) ∨
    ∃ blank w t mid container field expr close after,
      r = some (after, s.take ⟨container, field, t.span.merge close⟩ expr) ∧ Lexes c blank w t mid ∧
        t.kind = .openBrace ∧ s.container = some container ∧ s.depth = 0 ∧
        fieldName? ⟨false, false, false⟩ s.before = some field ∧ body source t.span.stop = .ok (expr, close, after) := by
  obtain ⟨⟨t, next⟩, hnext, h⟩ := Schema.exists_of_bind h
  have hscan := of_mapError hnext
  dsimp only at h
  by_cases hend : t.kind = .eof
  · rw [if_pos hend] at h
    cases h
    exact .inl ⟨rfl, Schema.scanToken_end hscan hend _⟩
  rw [if_neg hend] at h
  obtain ⟨blank, w, hlex⟩ := Schema.scanToken_lexes hscan hend
  cases hcontainer : s.container with
  | none =>
      rw [hcontainer] at h
      cases h
      refine .inr (.inl ⟨blank, w, t, next, rfl, hlex, fun hopens => ?_⟩)
      rw [State.Opens, hcontainer] at hopens
      cases hopens.1
  | some container =>
      rw [hcontainer] at h
      dsimp only at h
      by_cases hopens : (t.kind = .openBrace && s.depth = 0 : Bool) = true
      · rw [if_pos hopens] at h
        simp only [Bool.and_eq_true, decide_eq_true_eq] at hopens
        cases hfield : fieldName? ⟨false, false, false⟩ s.before with
        | none =>
            rw [hfield] at h
            cases h
        | some field =>
            rw [hfield] at h
            obtain ⟨⟨expr, close, after⟩, hbody, h⟩ := Schema.exists_of_bind h
            cases h
            exact .inr (.inr ⟨blank, w, t, next, container, field, expr, close, after, rfl, hlex, hopens.1, rfl,
              hopens.2, rfl, hbody⟩)
      · rw [if_neg hopens] at h
        cases h
        refine .inr (.inl ⟨blank, w, t, next, rfl, hlex, fun hopens' => hopens ?_⟩)
        simp [hopens'.2]

end Steps

/-! ## Looking back -/

section Back

variable {d : Nat} {back ts : List Schema.Token} {p : Passed} {ks more : List Schema.TokenKind} {name field : String}

/-- What stands in front of the tokens of a part: no name is the last of it. -/
def Parted (back : List Schema.Token) : Prop := ∀ t ∈ back.head?, t.name? = none

/-- A search that finds a name does not look any further. -/
theorem backName?_append (h : backName? p ks = some name) : backName? p (ks ++ more) = some name := by
  induction ks generalizing p with
  | nil => cases h
  | cons k ks ih =>
      cases k with
      | colon =>
          simp only [List.cons_append, backName?] at h ⊢
          by_cases hstop : (p.colon && !p.closing) = true
          · rw [if_pos hstop] at h
            cases h
          · rw [if_neg hstop] at h ⊢
            exact ih h
      | openParen =>
          simp only [List.cons_append, backName?] at h ⊢
          by_cases hclosing : p.closing = true
          · rw [if_pos hclosing] at h ⊢
            exact ih h
          · rw [if_neg hclosing] at h
            cases h
      | name text =>
          simp only [List.cons_append, backName?] at h ⊢
          by_cases hfound : (p.colon && p.closing == p.opening) = true
          · rw [if_pos hfound] at h ⊢
            exact h
          · rw [if_neg hfound] at h ⊢
            exact ih h
      | _ => exact ih h

theorem fieldName?_append (h : fieldName? p ts = some field) :
    fieldName? p (ts.map (·.moved d) ++ back) = some field := by
  have hkinds : (ts.map (·.moved d) ++ back).map (·.kind) = ts.map (·.kind) ++ back.map (·.kind) := by
    rw [List.map_append, List.map_map]
    rfl
  rw [fieldName?_eq_backName?] at h
  rw [fieldName?_eq_backName?, hkinds]
  exact backName?_append h

/-- The name of a container and its keyword are both tokens of the part, or there is no container. -/
theorem openedContainer?_append (hback : Parted back) (ts : List Schema.Token) :
    openedContainer? (ts.map (·.moved d) ++ back) = openedContainer? ts := by
  match ts with
  | _ :: _ :: _ => rfl
  | [t] =>
      cases back with
      | nil => rfl
      | cons keyword back =>
          have hkeyword : keyword.name? = none := hback keyword rfl
          show (if keyword.name? = some "type" then _ else none) = none
          rw [hkeyword]
          rfl
  | [] =>
      match back with
      | [] => rfl
      | [t] => rfl
      | t :: keyword :: back =>
          have ht : t.name? = none := hback t rfl
          show (if keyword.name? = some "type" then t.name?.bind _ else none) = none
          rw [ht, Option.bind_none, ite_self]

end Back

/-! ## States of a part and of the whole -/

/-- A state of a walk over the whole that has passed the tokens `back` and found `x` before it has come to a part, and a
state of a walk over the part. The depth is that of parentheses in a container, and of no account outside of one. -/
structure Follows (d : Nat) (back : List Schema.Token) (x : Extraction) (s s₂ : State) : Prop where
  before : s₂.before = s.before.map (·.moved d) ++ back
  container : s₂.container = s.container
  depth : s.container.isSome → s₂.depth = s.depth
  found : s₂.found = x.merge (s.found.moved d)

namespace Follows

variable {d : Nat} {back : List Schema.Token} {x : Extraction} {s s₂ : State} {t : Schema.Token}

theorem opens_iff (h : Follows d back x s s₂) (t : Schema.Token) : s₂.Opens (t.moved d) ↔ s.Opens t := by
  unfold State.Opens
  rw [h.container, Schema.Token.moved_kind]
  refine and_congr_right fun hsome => ?_
  rw [h.depth hsome]

theorem pass (h : Follows d back x s s₂) (hback : Parted back) (t : Schema.Token) :
    Follows d back x (s.pass t) (s₂.pass (t.moved d)) := by
  have hopened := openedContainer?_append (d := d) hback s.before
  rw [← h.before] at hopened
  have hmode : (s₂.pass (t.moved d)).container = (s.pass t).container ∧
      ((s.pass t).container.isSome → (s₂.pass (t.moved d)).depth = (s.pass t).depth) := by
    unfold State.pass
    rw [Schema.Token.moved_kind, h.container]
    cases hcontainer : s.container with
    | none =>
        have hcontainer₂ := h.container.trans hcontainer
        by_cases hbrace : t.kind = .openBrace
        · simp [hbrace, hopened]
        · cases hkind : t.kind <;> simp_all
    | some container =>
        have hcontainer₂ := h.container.trans hcontainer
        have hdepth := h.depth (by rw [hcontainer]; rfl)
        by_cases hbrace : t.kind = .closeBrace
        · by_cases hzero : s.depth = 0 <;> simp [hbrace, hdepth, hzero, hcontainer, hcontainer₂]
        · cases hkind : t.kind <;> simp_all
  refine ⟨?_, hmode.1, hmode.2, ?_⟩
  · show t.moved d :: s₂.before = _
    rw [h.before]
    rfl
  · rw [State.pass_found, State.pass_found, h.found]

theorem take (h : Follows d back x s s₂) (hx : (x.bodies.map FieldBody.key).Nodup) (r : Region) (e : Expr) :
    Follows d back x (s.take r e) (s₂.take (r.moved d) (e.moved d)) where
  before := h.before
  container := h.container
  depth := h.depth
  found := by
    show s₂.found.add _ _ = x.merge ((s.found.add r e).moved d)
    rw [h.found, Extraction.moved_add, Extraction.merge_add hx]

end Follows

/-! ## Walks over a part -/

section Walks

variable {part whole source : Source} {d o fuel : Nat} {post front blank rest : List Char} {back : List Schema.Token}
  {x : Extraction} {c c' : Cursor} {s s' s₂ last : State}

/-- The place behind a body. -/
theorem body_stands {mid after : Cursor} {expr : Expr} {close : Span} (hmid : mid.Stands source front)
    (h : body source mid.offset = .ok (expr, close, after)) :
    (∃ front', after.Stands source front') ∧ after.rest.length < mid.rest.length := by
  obtain ⟨inner, hcloses, -, -⟩ := body_closes hmid h
  refine ⟨⟨_, hcloses.stands hmid⟩, ?_⟩
  rw [hcloses.rest, List.length_append, List.length_cons]
  omega

/-- A step over a part is a step over the whole, further behind. -/
theorem step_carried (hpart : part.IsPart whole d post) (hback : Parted back) (hx : (x.bodies.map FieldBody.key).Nodup)
    (hc : c.Stands part front) (hf : Follows d back x s s₂) (h : step part c s = .ok (some (c', s'))) :
    ∃ s₂', step whole (c.carried d post) s₂ = .ok (some (c'.carried d post, s₂')) ∧ Follows d back x s' s₂' ∧
      (∃ front', c'.Stands part front') ∧ c'.rest.length < c.rest.length := by
  rcases step_cases h with ⟨hnone, -⟩ | ⟨blank, w, t, next, hsome, hlex, hopens⟩ |
    ⟨blank, w, t, mid, container, field, expr, close, after, hsome, hlex, hkind, hcontainer, hdepth, hfield, hbody⟩
  · cases hnone
  · cases hsome
    have hlex' := hlex.carried (d := d) (hpart.apart _)
    have hopens' : ¬ s₂.Opens (t.moved d) := fun hopens₂ => hopens ((hf.opens_iff t).1 hopens₂)
    exact ⟨_, step_token hlex' hopens', hf.pass hback t, ⟨_, hc.lexes hlex⟩, hlex.length_lt⟩
  · cases hsome
    have hmid := hc.lexes hlex
    have hstop : t.span.stop = mid.offset := by rw [hlex.span, hlex.offset]
    have hlex' := hlex.carried (d := d) (hpart.apart _)
    have hfield₂ : fieldName? ⟨false, false, false⟩ s₂.before = some field := by
      rw [hf.before]
      exact fieldName?_append hfield
    have hdepth₂ : s₂.depth = 0 := (hf.depth (by rw [hcontainer]; rfl)).trans hdepth
    have hstep := step_body hlex' hkind (hf.container.trans hcontainer) hdepth₂ hfield₂ (body_carried hpart hbody)
    have hspan : (t.moved d).span.merge (close.moved d) = (t.span.merge close).moved d := (Span.moved_merge ..).symm
    rw [hspan] at hstep
    rw [hstop] at hbody
    obtain ⟨hafter, hlength⟩ := body_stands hmid hbody
    exact ⟨_, hstep, hf.take hx ⟨container, field, t.span.merge close⟩ expr, hafter, Nat.lt_trans hlength hlex.length_lt⟩

/-- A walk to the end of a part is the beginning of a walk over the whole. It takes `k` steps. -/
theorem walkState_carried (hpart : part.IsPart whole d post) (hback : Parted back)
    (hx : (x.bodies.map FieldBody.key).Nodup) (hc : c.Stands part front) (hf : Follows d back x s s₂)
    (hfuel : c.rest.length < fuel) (h : walkState part fuel c s = .ok last) :
    ∃ (c' : Cursor) (last₂ : State) (k : Nat), (∀ m, walkState whole (m + k) (c.carried d post) s₂ = walkState whole m (c'.carried d post) last₂) ∧
      Follows d back x last last₂ ∧ (∃ front', c'.Stands part front') ∧
      (∀ o, (Schema.skipIgnored false o c'.rest).rest = []) ∧ k + c'.rest.length ≤ c.rest.length := by
  induction fuel generalizing c s s₂ front with
  | zero => omega
  | succ fuel ih =>
      obtain ⟨r, hstep, h⟩ := Schema.exists_of_bind h
      cases r with
      | none =>
          cases h
          rcases step_cases hstep with ⟨-, hend⟩ | ⟨blank, w, t, next, hsome, -⟩ |
            ⟨blank, w, t, mid, container, field, expr, close, after, hsome, -⟩
          · refine ⟨c, s₂, 0, fun m => rfl, hf, ⟨front, hc⟩, fun o => ?_, by omega⟩
            rw [Schema.skipIgnored_offset false o c.offset, hend]
          · cases hsome
          · cases hsome
      | some r =>
          obtain ⟨next, s'⟩ := r
          obtain ⟨s₂', hstep₂, hf', ⟨front', hnext⟩, hlength⟩ := step_carried hpart hback hx hc hf hstep
          obtain ⟨c', last₂, k, hwalk, hlast, hstands, hend, hk⟩ := ih hnext hf' (by omega) h
          refine ⟨c', last₂, k + 1, fun m => ?_, hlast, hstands, hend, by omega⟩
          rw [← hwalk, ← Nat.add_assoc]
          show (step whole (c.carried d post) s₂ >>= _) = _
          rw [hstep₂]
          rfl

/-- What is skipped in front of a walk. -/
theorem walkState_ignored (h : Ignored blank) (o : Nat) (rest : List Char) :
    walkState source fuel ⟨blank ++ rest, o⟩ s = walkState source fuel ⟨rest, o + byteLength blank⟩ s := by
  cases fuel with
  | zero => rfl
  | succ fuel =>
      unfold walkState step Extract.next
      rw [Schema.scanToken_ignored h]

theorem skipIgnored_line (comment : Bool) (o : Nat) (h : (Schema.skipIgnored comment o blank).rest = []) (rest : List Char) :
    Schema.skipIgnored comment o (blank ++ '\n' :: rest) = Schema.skipIgnored false (o + byteLength blank + 1) rest := by
  induction blank generalizing comment o with
  | nil => cases comment <;> rfl
  | cons y blank ih =>
      rw [byteLength_cons, ← Nat.add_assoc]
      cases comment with
      | true =>
          simp only [List.cons_append, Schema.skipIgnored] at h ⊢
          by_cases hline : (y = '\n' || y = '\r') = true
          · have hsize : y.utf8Size = 1 := by
              simp only [Bool.or_eq_true, decide_eq_true_eq] at hline
              rcases hline with rfl | rfl <;> rfl
            rw [if_pos hline] at h ⊢
            rw [ih false (o + 1) h, hsize]
          · rw [if_neg hline] at h ⊢
            exact ih true _ h
      | false =>
          simp only [List.cons_append, Schema.skipIgnored] at h ⊢
          by_cases hcomment : y = '#'
          · subst hcomment
            exact ih true _ h
          · rw [if_neg hcomment] at h ⊢
            by_cases hblank : (y = ' ' || y = '\t' || y = '\n' || y = '\r' || y = ',' || y = '\uFEFF') = true
            · rw [if_pos hblank] at h ⊢
              exact ih false _ h
            · rw [if_neg hblank] at h
              cases h

/-- What is skipped at the end of a source is skipped with a line feed behind it. -/
theorem ignored_of_end (h : ∀ o, (Schema.skipIgnored false o blank).rest = []) : Ignored (blank ++ ['\n']) := by
  intro o rest
  have hline : byteLength ['\n'] = 1 := rfl
  rw [List.append_assoc, byteLength_append, hline, ← Nat.add_assoc]
  exact skipIgnored_line false o (h o) rest

theorem walkState_end (h : (Schema.skipIgnored false c.offset c.rest).rest = []) :
    walkState source (fuel + 1) c s = .ok s := by
  unfold walkState
  rw [step_end h]
  rfl

theorem lastState_of_extract (h : extract source = .ok x) : ∃ last, lastState source = .ok last ∧ last.found = x := by
  rw [extract_eq_lastState] at h
  have hfound := of_mapError h
  cases hlast : lastState source with
  | error fault =>
      rw [hlast] at hfound
      cases hfound
  | ok last =>
      rw [hlast] at hfound
      exact ⟨last, rfl, Except.ok.inj hfound⟩

end Walks

/-! ## Two sources -/

theorem isPart_front (s₁ s₂ : Source) : s₁.IsPart (s₁.joined s₂) 0 ('\n' :: s₂.chars) := by
  refine ⟨⟨[], rfl, rfl⟩, fun kind => halts_cons.2 ?_⟩
  cases kind with
  | string text => exact Bool.and_false _
  | _ => rfl

theorem isPart_back (s₁ s₂ : Source) : s₂.IsPart (s₁.joined s₂) (s₁.size + 1) [] := by
  refine ⟨⟨s₁.chars ++ ['\n'], by simp [Source.joined], ?_⟩, fun kind => halts_nil _⟩
  rw [byteLength_append]
  rfl

variable {s₁ s₂ : Source} {last last₂ s : State}

/-- A walk over two sources starts like one over the first of them, and comes to the beginning of the second one. -/
theorem walk_front (s₂ : Source) (hlast : lastState s₁ = .ok last) :
    ∃ s k, Follows 0 [] .empty last s ∧ k ≤ s₁.size ∧
      ∀ m, walkState (s₁.joined s₂) (m + k) (Cursor.ofOffset (s₁.joined s₂) 0) .first =
        walkState (s₁.joined s₂) m ⟨s₂.chars, s₁.size + 1⟩ s := by
  have hstart := Schema.Cursor.Stands.start s₁
  have hsize := hstart.length_le_size
  have hfirst : Follows 0 [] .empty .first .first := ⟨rfl, rfl, fun _ => rfl, rfl⟩
  have hback : Parted [] := by
    intro t ht
    cases ht
  have hempty : (Extraction.empty.bodies.map FieldBody.key).Nodup := List.nodup_nil
  obtain ⟨c, s, k, hwalk, hfollows, ⟨front, hc⟩, hend, hk⟩ :=
    walkState_carried (isPart_front s₁ s₂) hback hempty hstart hfirst (Nat.lt_succ_of_le hsize) hlast
  have hplace : c.offset + byteLength (c.rest ++ ['\n']) = s₁.size + 1 := by
    rw [byteLength_append, ← Nat.add_assoc, ← hc.size_eq]
    rfl
  have hbegin : (Cursor.ofOffset s₁ 0).carried 0 ('\n' :: s₂.chars) = Cursor.ofOffset (s₁.joined s₂) 0 := by
    simp [Cursor.ofOffset, Cursor.carried, Source.joined]
  refine ⟨s, k, hfollows, by omega, fun m => ?_⟩
  rw [← hbegin, hwalk, ← hplace, ← walkState_ignored (ignored_of_end hend), List.append_assoc]
  rfl

/-- From there on it goes like one over the second source. -/
theorem walk_back (s₁ : Source) (hlast : lastState s₂ = .ok last) (hback : Parted s.before)
    (houtside : s.container = none) (hx : (s.found.bodies.map FieldBody.key).Nodup) :
    ∃ s', Follows (s₁.size + 1) s.before s.found last s' ∧
      ∀ m, s₂.size < m → walkState (s₁.joined s₂) m ⟨s₂.chars, s₁.size + 1⟩ s = .ok s' := by
  have hstart := Schema.Cursor.Stands.start s₂
  have hsize := hstart.length_le_size
  have hfirst : Follows (s₁.size + 1) s.before s.found .first s :=
    ⟨rfl, houtside, nofun, (Extraction.merge_empty _).symm⟩
  obtain ⟨c, s', k, hwalk, hfollows, -, hend, hk⟩ :=
    walkState_carried (isPart_back s₁ s₂) hback hx hstart hfirst (Nat.lt_succ_of_le hsize) hlast
  have hbegin : (Cursor.ofOffset s₂ 0).carried (s₁.size + 1) [] = ⟨s₂.chars, s₁.size + 1⟩ := by
    simp [Cursor.ofOffset, Cursor.carried]
  refine ⟨s', hfollows, fun m hm => ?_⟩
  obtain ⟨m, rfl⟩ : ∃ n, m = n + 1 + k := ⟨m - 1 - k, by omega⟩
  rw [← hbegin, hwalk]
  refine walkState_end ?_
  rw [Cursor.carried, List.append_nil]
  exact hend _

end Extract

open Extract

/-- What is extracted from a source that ends outside of containers, behind a closing brace, and from another one is
extracted from both of them with a line feed between them. The regions and the expressions of the second source stand
behind the first one. A field that has a body in both keeps its place from the first and has the expression of the
second. -/
theorem extract_joined {s₁ s₂ : Source} {x₁ x₂ : Extraction} {last : State} (h₁ : extract s₁ = .ok x₁)
    (h₂ : extract s₂ = .ok x₂) (hlast : lastState s₁ = .ok last)
    (hbrace : last.before.head?.map (·.kind) = some .closeBrace) (houtside : last.container = none) :
    extract (s₁.joined s₂) = .ok (x₁.merge (x₂.moved (s₁.size + 1))) := by
  have hfound : last.found = x₁ := by
    obtain ⟨last', hlast', hfound⟩ := lastState_of_extract h₁
    rw [hlast] at hlast'
    rwa [Except.ok.inj hlast']
  obtain ⟨last₂, hlast₂, hfound₂⟩ := lastState_of_extract h₂
  obtain ⟨s, k, hfront, hk, hwalk⟩ := walk_front s₂ hlast
  have hbefore : s.before = last.before := by
    rw [hfront.before, List.append_nil]
    exact List.map_id _
  have hx : s.found = x₁ := by rw [hfront.found, hfound, Extraction.moved_zero, Extraction.empty_merge]
  have hback : Parted s.before := by
    intro t ht
    rw [hbefore] at ht
    rw [Option.mem_def.1 ht] at hbrace
    have hkind : t.kind = .closeBrace := Option.some.inj hbrace
    rw [Schema.Token.name?, hkind]
  obtain ⟨s', hfollows, hrest⟩ := walk_back s₁ hlast₂ hback (hfront.container.trans houtside)
    (by rw [hx]; exact Extraction.extract_nodup h₁)
  have hsize := s₁.joined_size s₂
  have hfuel : (s₁.joined s₂).size + 1 = s₁.size + 1 + s₂.size + 1 - k + k := by omega
  have hend : lastState (s₁.joined s₂) = .ok s' := by
    rw [lastState, hfuel, hwalk]
    exact hrest _ (by omega)
  rw [extract_eq_lastState, hend]
  show Except.ok s'.found = _
  rw [hfollows.found, hx, hfound₂]

/-- A source that ends with a comment, and one that says more about the same type. -/
def firstFields : Source := .ofString "type Query \x7b a: Int \x7b x \x7d b: Int \x7b y \x7d \x7d # more below"

def secondFields : Source := .ofString "extend type Query \x7b b: Int \x7b z \x7d c: Int \x7b w \x7d \x7d"

/-- There are four regions, and the field of both sources keeps its place in front of the new one. -/
theorem firstFields_joined :
    ∃ x₁ x₂ last, extract firstFields = .ok x₁ ∧ extract secondFields = .ok x₂ ∧ lastState firstFields = .ok last ∧
      last.before.head?.map (·.kind) = some .closeBrace ∧ last.container = none ∧
      extract (firstFields.joined secondFields) = .ok (x₁.merge (x₂.moved (firstFields.size + 1))) ∧
      (x₁.merge (x₂.moved (firstFields.size + 1))).regions.map (·.span) = [⟨20, 25⟩, ⟨33, 38⟩, ⟨81, 86⟩, ⟨94, 99⟩] ∧
      (x₁.merge (x₂.moved (firstFields.size + 1))).bodies.map FieldBody.key =
        [(.query, "a"), (.query, "b"), (.query, "c")] := by
  obtain ⟨x₁, h₁, -⟩ := exists_of_run firstFields (f := fun x => x.regions.length) (a := 2) (by decide +kernel)
  obtain ⟨x₂, h₂, -⟩ := exists_of_run secondFields (f := fun x => x.regions.length) (a := 2) (by decide +kernel)
  obtain ⟨x, h, hx⟩ := exists_of_run (firstFields.joined secondFields)
    (f := fun x => (x.regions.map (·.span), x.bodies.map FieldBody.key))
    (a := ([⟨20, 25⟩, ⟨33, 38⟩, ⟨81, 86⟩, ⟨94, 99⟩], [(.query, "a"), (.query, "b"), (.query, "c")])) (by decide +kernel)
  have hends : (lastState firstFields).toOption.map (fun s => (s.before.head?.map (·.kind), s.container)) =
      some (some .closeBrace, none) := by decide +kernel
  cases hlast : lastState firstFields with
  | error fault =>
      rw [hlast] at hends
      cases hends
  | ok last =>
      rw [hlast] at hends
      obtain ⟨hbrace, houtside⟩ := Prod.mk.inj (Option.some.inj hends)
      have hjoined := extract_joined h₁ h₂ hlast hbrace houtside
      obtain rfl := Except.ok.inj (h.symm.trans hjoined)
      obtain ⟨hspans, hkeys⟩ := Prod.mk.inj hx
      exact ⟨x₁, x₂, last, h₁, h₂, rfl, hbrace, houtside, hjoined, hspans, hkeys⟩

end FieldScript
