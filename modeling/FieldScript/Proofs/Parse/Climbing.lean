import FieldScript.Proofs.Parse.TwinRuns
import FieldScript.Proofs.Token.Streams

/-!
# Rows of infix operators

Operands with infix operators between them are read as one tree. The tree has the row as its in-order traversal, and at
every operator the operands that are operators of the same row bind tight enough (`OpTree.Ordered`). There is only one
such tree (`OpTree.Ordered.eq_of_traversal`), and it is what is read (`binary_infixes`).

Both directions rest on one fact about the table of precedences: of two operators around an operand exactly one takes
it (`InfixOp.leftPrecedence_le_iff`).
-/

namespace FieldScript

/-- Streams with an end mark behind the last token. -/
def Token.Stream.Ended : Stream → Prop
  | .cons _ rest => rest.Ended
  | .done t => t.isEof = true
  | .failed _ => True

theorem Token.Stream.Sound.ended {s : Stream} (h : s.Sound) : s.Ended := by
  induction s with
  | cons t rest ih => exact ih h.2.2
  | done t => exact h
  | failed fault => trivial

theorem Token.Stream.ofSource_ended (source : Source) (offset : Nat) : (ofSource source offset).Ended :=
  (ofSource_sound source offset).ended

open Token (Stream)

namespace Parse

/-! ## Precedences -/

namespace InfixOp

/-- The least precedence that the left operand may have. Only powers do not group to the left. -/
def leftPrecedence (op : InfixOp) : Nat :=
  if op = .binary .exp then op.precedence + 1 else op.precedence

theorem one_le_precedence (op : InfixOp) : 1 ≤ op.precedence := by
  rcases op with op | op <;> cases op <;> decide

/-- Nothing binds as tight as a power. -/
theorem precedence_lt {op : InfixOp} (h : op ≠ .binary .exp) : op.precedence < 11 := by
  rcases op with op | op <;> cases op <;> first | exact absurd rfl h | decide

theorem precedence_le_leftPrecedence (op : InfixOp) : op.precedence ≤ op.leftPrecedence := by
  unfold leftPrecedence
  split <;> omega

theorem precedence_le_rightPrecedence (op : InfixOp) : op.precedence ≤ op.rightPrecedence := by
  unfold rightPrecedence
  split <;> omega

/-- Between two operators, the operand goes to the left one unless the right one binds tight enough for it. -/
theorem leftPrecedence_le_iff (op op' : InfixOp) :
    op'.leftPrecedence ≤ op.precedence ↔ op'.precedence < op.rightPrecedence := by
  unfold leftPrecedence rightPrecedence
  by_cases h : op = .binary .exp
  · rw [if_pos h]
    split
    · rename_i h'
      rw [h, h']
      decide
    · rename_i h'
      have hlt := precedence_lt h'
      have hexp : op.precedence = 11 := by rw [h]; rfl
      omega
  · have hlt := precedence_lt h
    rw [if_neg h]
    split
    · rename_i h'
      have hexp : op'.precedence = 11 := by rw [h']; rfl
      omega
    · omega

end InfixOp

/-! ## Trees of a row -/

/-- A tree of infix operators over operands, which may be operators themselves. -/
inductive OpTree where
  | operand (e : Expr)
  | node (op : InfixOp) (left right : OpTree)

namespace OpTree

/-- The expression of a tree. -/
def toExpr : OpTree → Expr
  | operand e => e
  | node op left right => op.apply left.toExpr right.toExpr

/-- The leftmost operand. -/
def first : OpTree → Expr
  | operand e => e
  | node _ left _ => left.first

/-- The operators from left to right, each with the operand behind it. -/
def rest : OpTree → List (InfixOp × Expr)
  | operand _ => []
  | node op left right => left.rest ++ (op, right.first) :: right.rest

/-- An operand, or an operator of at least a precedence. -/
def AtLeast (least : Nat) : OpTree → Prop
  | operand _ => True
  | node op _ _ => least ≤ op.precedence

/-- At every operator, the operands bind tight enough. -/
def Ordered : OpTree → Prop
  | operand _ => True
  | node op left right =>
    left.AtLeast op.leftPrecedence ∧ right.AtLeast op.rightPrecedence ∧ left.Ordered ∧ right.Ordered

variable {least least' : Nat} {tree other : OpTree}

theorem AtLeast.le (h : tree.AtLeast least) (hle : least' ≤ least) : tree.AtLeast least' := by
  cases tree with
  | operand e => trivial
  | node op left right => exact Nat.le_trans hle h

/-- The operator at the root binds loosest. -/
theorem Ordered.precedence_le (h : tree.Ordered) (hleast : tree.AtLeast least) :
    ∀ p ∈ tree.rest, least ≤ p.1.precedence := by
  induction tree with
  | operand e => nofun
  | node op left right ihLeft ihRight =>
      obtain ⟨hleft, hright, hleftOrdered, hrightOrdered⟩ := h
      have hop : least ≤ op.precedence := hleast
      rw [rest, List.forall_mem_append, List.forall_mem_cons]
      refine ⟨ihLeft hleftOrdered (hleft.le ?_), hop, ihRight hrightOrdered (hright.le ?_)⟩
      · exact Nat.le_trans hop op.precedence_le_leftPrecedence
      · exact Nat.le_trans hop op.precedence_le_rightPrecedence

/-- If the root of one of two trees of a row stood in front of the other root, it would be an operator of the left
operand there, and the other root one of the right operand here: each would have to bind tighter. -/
theorem not_before {op op' : InfixOp} {e : Expr} {left right left' right' : OpTree} (h : (node op left right).Ordered)
    (h' : (node op' left' right').Ordered) {between : List (InfixOp × Expr)}
    (hleft : left'.rest = left.rest ++ (op, e) :: between) : (op', right'.first) ∉ right.rest := by
  intro hmem
  have hloose : op'.leftPrecedence ≤ op.precedence :=
    h'.2.2.1.precedence_le h'.1 (op, e) (by rw [hleft]; simp)
  have htight : op.rightPrecedence ≤ op'.precedence := h.2.2.2.precedence_le h.2.1 _ hmem
  exact absurd ((InfixOp.leftPrecedence_le_iff op op').1 hloose) (by omega)

/-- Ordered trees of a row have their roots at one place. -/
theorem left_rest_eq {op op' : InfixOp} {left right left' right' : OpTree} (h : (node op left right).Ordered)
    (h' : (node op' left' right').Ordered) (hrest : (node op left right).rest = (node op' left' right').rest) :
    left.rest = left'.rest := by
  obtain ⟨between, hfront, hback⟩ | ⟨between, hfront, hback⟩ := List.append_eq_append_iff.1 hrest
  · cases between with
    | nil => rw [hfront, List.append_nil]
    | cons p between =>
        obtain ⟨rfl, hright⟩ := List.cons.inj hback
        exact absurd (hright ▸ List.mem_append_cons_self) (not_before h h' hfront)
  · cases between with
    | nil => rw [hfront, List.append_nil]
    | cons p between =>
        obtain ⟨rfl, hright⟩ := List.cons.inj hback
        exact absurd (hright ▸ List.mem_append_cons_self) (not_before h' h hfront)

/-- A row has one ordered tree. -/
theorem Ordered.eq_of_traversal (h : tree.Ordered) (h' : other.Ordered) (hfirst : tree.first = other.first)
    (hrest : tree.rest = other.rest) : tree = other := by
  induction tree generalizing other with
  | operand e =>
      cases other with
      | operand e' => exact congrArg operand hfirst
      | node op' left' right' => exact absurd hrest (by simp [rest])
  | node op left right ihLeft ihRight =>
      cases other with
      | operand e' => exact absurd hrest (by simp [rest])
      | node op' left' right' =>
          have hleft := left_rest_eq h h' hrest
          rw [rest, rest, hleft] at hrest
          obtain ⟨hroot, hright⟩ := List.cons.inj (List.append_cancel_left hrest)
          obtain ⟨rfl, hsecond⟩ := Prod.mk.inj hroot
          rw [ihLeft h.2.2.1 h'.2.2.1 hfirst hleft, ihRight h.2.2.2 h'.2.2.2 hsecond hright]

end OpTree

/-! ## Rows -/

variable {st mid st' : State} {u : Expr} {more : List (InfixOp × Expr)} {least depth fuel : Nat}

/-- From one state to another an operand is read, with the operators in front of it and behind it. -/
def OperandAt (st : State) (u : Expr) (st' : State) : Prop := ∃ depth, unary (grammar depth) st = .ok (u, st')

/-- From a state on there are infix operators, each with an operand behind it, up to a token that is no infix
operator. -/
inductive InfixesAt : State → List (InfixOp × Expr) → State → Prop where
  | stop {st : State} {t : Token} (next : nth 0 st.stream = .ok t) (other : infixOp? t.kind = none) : InfixesAt st [] st
  | step {t : Token} {rest : Stream} {lastEnd : Nat} {op : InfixOp} {u : Expr} {mid st' : State}
      {ops : List (InfixOp × Expr)} (mark : infixOp? t.kind = some op) (operand : OperandAt ⟨rest, t.span.stop⟩ u mid)
      (more : InfixesAt mid ops st') : InfixesAt ⟨.cons t rest, lastEnd⟩ ((op, u) :: ops) st'

namespace Crosses

variable {o r o' r' : Nest}

theorem length_le (h : Crosses o st o' st') : st'.stream.length ≤ st.stream.length := by
  induction h with
  | refl => exact Nat.le_refl _
  | step _ _ ih => exact Nat.le_succ_of_le ih

theorem ended (h : Crosses o st o' st') (hst : st.stream.Ended) : st'.stream.Ended := by
  induction h with
  | refl => exact hst
  | step _ _ ih => exact ih hst

/-- The number of tokens left tells where the crossing has come. -/
theorem eq_of_length {st₂ : State} (h : Crosses o st o' st') (h₂ : Crosses r st r' st₂)
    (hlength : st₂.stream.length = st'.stream.length) : st₂ = st' := by
  induction h generalizing r with
  | refl o st =>
      cases h₂ with
      | refl => rfl
      | step _ more => exact absurd hlength (Nat.ne_of_lt (Nat.lt_succ_of_le more.length_le))
  | step _ more ih =>
      cases h₂ with
      | refl => exact absurd hlength.symm (Nat.ne_of_lt (Nat.lt_succ_of_le more.length_le))
      | step _ more₂ => exact ih more₂ hlength

end Crosses

theorem twin_of_ended {s : Stream} (hs : s.Ended) (o : Nest) : Twin 0 o s s := by
  induction s generalizing o with
  | cons t rest ih => exact ⟨rest, rfl, fun o' _ => ih hs o'⟩
  | done t => exact ⟨hs, rfl⟩
  | failed fault => trivial

/-- What one of two parsers reads, the other one reads as well, up to the same token. -/
theorem Matches.same {α : Type} {n k : Nat} {mv : α → α} {p p₂ : Parser α} {a : α}
    (h : Matches 0 n k AnyStream [] [] mv p p₂) (h₂ : Matches 0 n k AnyStream [] [] mv p₂ p₂) (hmv : ∀ a, mv a = a)
    (hst : st.stream.Ended) (hlt : st.stream.length < n) (hrun : p st = .ok (a, st')) :
    p₂ st = .ok (a, st') ∧ st'.stream.Ended ∧ st'.stream.length + k ≤ st.stream.length := by
  have habreast : Abreast 0 [] st st := ⟨twin_of_ended hst [], rfl⟩
  obtain ⟨st₂, hrun₂, -, hcrosses, hcount, hsame⟩ := h st st habreast hlt trivial a st' hrun
  obtain ⟨-, -, -, hcrosses₂, -, -⟩ := h₂ st st habreast hlt trivial _ st₂ hrun₂
  obtain rfl := hcrosses.eq_of_length hcrosses₂ (by omega)
  rw [hmv] at hrun₂
  exact ⟨hrun₂, hcrosses.ended hst, hcount⟩

/-- An operand that is read at some depth is read at every depth that suffices for the tokens. -/
theorem OperandAt.read (h : OperandAt st u mid) (hst : st.stream.Ended) (hdepth : st.stream.length ≤ depth) :
    unary (grammar depth) st = .ok (u, mid) ∧ mid.stream.Ended ∧ mid.stream.length < st.stream.length := by
  obtain ⟨depth', hrun⟩ := h
  exact (unary_matches (grammar_matches 0 depth' depth)).same (unary_matches (grammar_matches 0 depth depth))
    Expr.moved_zero hst (Nat.lt_succ_of_le hdepth) hrun

/-! ## Climbing -/

section Steps

variable {g : Grammar} {left : Expr} {t : Token} {rest : Stream} {lastEnd : Nat} {op : InfixOp}

theorem infixFrom_stop (ht : nth 0 st.stream = .ok t) (hmark : infixOp? t.kind = none) :
    infixFrom g least left (fuel + 1) st = .ok (left, st) := by
  have hpeek : peek st = .ok (t, st) := Matches.peekNth_eq ht
  rw [infixFrom, bind_run hpeek, hmark]
  rfl

theorem infixFrom_loose (hmark : infixOp? t.kind = some op) (hloose : op.precedence < least) :
    infixFrom g least left (fuel + 1) ⟨.cons t rest, lastEnd⟩ = .ok (left, ⟨.cons t rest, lastEnd⟩) := by
  have hpeek : peek ⟨.cons t rest, lastEnd⟩ = .ok (t, ⟨.cons t rest, lastEnd⟩) := rfl
  rw [infixFrom, bind_run hpeek, hmark]
  dsimp only
  rw [if_pos hloose]
  rfl

theorem infixFrom_tight {right : Expr} (hmark : infixOp? t.kind = some op) (htight : least ≤ op.precedence)
    (hright : g.binary op.rightPrecedence ⟨rest, t.span.stop⟩ = .ok (right, mid)) :
    infixFrom g least left (fuel + 1) ⟨.cons t rest, lastEnd⟩ = infixFrom g least (op.apply left right) fuel mid := by
  have hpeek : peek ⟨.cons t rest, lastEnd⟩ = .ok (t, ⟨.cons t rest, lastEnd⟩) := rfl
  rw [infixFrom, bind_run hpeek, hmark]
  dsimp only
  rw [if_neg (Nat.not_lt.2 htight)]
  show (g.binary op.rightPrecedence ⟨rest, t.span.stop⟩ >>= fun r => infixFrom g least (op.apply left r.1) fuel r.2) = _
  rw [hright]
  rfl

theorem binary_eq (h : unary g st = .ok (u, mid)) :
    binary g least st = infixFrom g least u (mid.stream.length + 1) mid := by
  show (unary g st >>= fun r => _) = _
  rw [h]
  rfl

end Steps

/-- What climbing makes of a row: an ordered tree of its beginning, with operators of at least a precedence, in front of
an operator that binds looser. -/
structure Climbed (least : Nat) (first : Expr) (row : List (InfixOp × Expr)) (tree : OpTree) (mid st' : State)
    (back : List (InfixOp × Expr)) : Prop where
  first : tree.first = first
  row : tree.rest ++ back = row
  ordered : tree.Ordered
  atLeast : tree.AtLeast least
  behind : InfixesAt mid back st'
  looser : ∀ p ∈ back.head?, p.1.precedence < least
  ended : mid.stream.Ended

/-- From an operand that the next operator may take, climbing goes as far as its least precedence. The induction is on
the tokens that are left, for right operands and for the rest of the row alike. -/
theorem infixFrom_climbs {n : Nat} {left : OpTree} (hn : st.stream.length < n) (hst : st.stream.Ended)
    (hmore : InfixesAt st more st') (hdepth : st.stream.length ≤ depth) (hfuel : st.stream.length < fuel)
    (hordered : left.Ordered) (hleast : left.AtLeast least)
    (hnext : ∀ p ∈ more.head?, left.AtLeast p.1.leftPrecedence) :
    ∃ tree mid back, infixFrom (grammar depth) least left.toExpr fuel st = .ok (tree.toExpr, mid) ∧
      mid.stream.length ≤ st.stream.length ∧ Climbed least left.first (left.rest ++ more) tree mid st' back := by
  induction n generalizing st more depth fuel least left with
  | zero => exact absurd hn (Nat.not_lt_zero _)
  | succ n ih =>
      obtain ⟨fuel, rfl⟩ : ∃ k, fuel = k + 1 := ⟨fuel - 1, by omega⟩
      cases hmore with
      | stop next other =>
          exact ⟨left, _, [], infixFrom_stop next other, Nat.le_refl _, rfl, rfl, hordered, hleast, .stop next other,
            nofun, hst⟩
      | @step t rest lastEnd op u mid _ ops mark operand more =>
          by_cases htight : least ≤ op.precedence
          · change rest.length + 1 < n + 1 at hn
            change rest.length + 1 ≤ depth at hdepth
            change rest.length + 1 < fuel + 1 at hfuel
            obtain ⟨depth, rfl⟩ : ∃ k, depth = k + 1 := ⟨depth - 1, by omega⟩
            have hrest : rest.length ≤ depth := by omega
            obtain ⟨hunary, hmid, hlt⟩ := operand.read hst hrest
            change mid.stream.length < rest.length at hlt
            have hoperand : ∃ right mid' back, infixFrom (grammar depth) op.rightPrecedence (OpTree.operand u).toExpr
                (mid.stream.length + 1) mid = .ok (right.toExpr, mid') ∧ mid'.stream.length ≤ mid.stream.length ∧
                  Climbed op.rightPrecedence u ops right mid' st' back :=
              ih (by omega) hmid more (by omega) (Nat.lt_succ_self _) trivial trivial fun _ _ => trivial
            obtain ⟨right, mid', back, hright, hle, hclimbed⟩ := hoperand
            have hbinary : (grammar (depth + 1)).binary op.rightPrecedence ⟨rest, t.span.stop⟩ =
                .ok (right.toExpr, mid') := (binary_eq hunary).trans hright
            have hnode : ∃ tree behind back', infixFrom (grammar (depth + 1)) least (OpTree.node op left right).toExpr
                fuel mid' = .ok (tree.toExpr, behind) ∧ behind.stream.length ≤ mid'.stream.length ∧
                  Climbed least left.first ((OpTree.node op left right).rest ++ back) tree behind st' back' :=
              ih (by omega) hclimbed.ended hclimbed.behind (by omega) (by omega)
                ⟨hnext (op, u) rfl, hclimbed.atLeast, hordered, hclimbed.ordered⟩ htight
                fun p hp => (InfixOp.leftPrecedence_le_iff op p.1).2 (hclimbed.looser p hp)
            obtain ⟨tree, behind, back', htree, hle', hclimbed'⟩ := hnode
            refine ⟨tree, behind, back', (infixFrom_tight mark htight hbinary).trans htree, ?_, ?_⟩
            · show behind.stream.length ≤ rest.length + 1
              omega
            · have hrow : (OpTree.node op left right).rest ++ back = left.rest ++ (op, u) :: ops := by
                have hfirst : right.first = u := hclimbed.first
                have hops : right.rest ++ back = ops := hclimbed.row
                rw [OpTree.rest, hfirst, ← hops, List.append_assoc, List.cons_append]
              rwa [hrow] at hclimbed'
          · have hloose := Nat.lt_of_not_le htight
            refine ⟨left, _, _, infixFrom_loose mark hloose, Nat.le_refl _, rfl, rfl, hordered, hleast,
              .step mark operand more, ?_, hst⟩
            rintro _ ⟨⟩
            exact hloose

/-- Operands with infix operators between them, up to a token that is no infix operator, are read as their one ordered
tree, and nothing else is consumed. -/
theorem binary_infixes (hst : st.stream.Ended) (hdepth : st.stream.length ≤ depth) (hfirst : OperandAt st u mid)
    (hmore : InfixesAt mid more st') :
    ∃ tree : OpTree, binary (grammar depth) 1 st = .ok (tree.toExpr, st') ∧ tree.first = u ∧ tree.rest = more ∧
      tree.Ordered ∧ ∀ other : OpTree, other.first = u → other.rest = more → other.Ordered → other = tree := by
  obtain ⟨hunary, hmid, hlt⟩ := hfirst.read hst hdepth
  have hclimbs : ∃ tree behind back, infixFrom (grammar depth) 1 (OpTree.operand u).toExpr (mid.stream.length + 1) mid =
      .ok (tree.toExpr, behind) ∧ behind.stream.length ≤ mid.stream.length ∧ Climbed 1 u more tree behind st' back :=
    infixFrom_climbs (Nat.lt_succ_self _) hmid hmore (by omega) (Nat.lt_succ_self _) trivial trivial fun _ _ => trivial
  obtain ⟨tree, behind, back, hread, -, hclimbed⟩ := hclimbs
  have hback : back = [] := by
    cases back with
    | nil => rfl
    | cons p back => exact absurd (hclimbed.looser p rfl) (Nat.not_lt.2 p.1.one_le_precedence)
  subst hback
  have hrest : tree.rest = more := by simpa [OpTree.rest] using hclimbed.row
  obtain rfl : behind = st' := by
    cases hclimbed.behind
    rfl
  refine ⟨tree, (binary_eq hunary).trans hread, hclimbed.first, hrest, hclimbed.ordered, ?_⟩
  intro other hu hops hordered
  exact hordered.eq_of_traversal hclimbed.ordered (hu.trans hclimbed.first.symm) (hops.trans hrest.symm)

/-- Powers group to the right, and a difference takes them as its left operand. -/
theorem powers_infixes :
    let stream : Stream := .cons ⟨.identifier "a", ⟨0, 1⟩, false, "a"⟩ (.cons ⟨.punct .exp, ⟨2, 4⟩, false, "**"⟩
      (.cons ⟨.identifier "b", ⟨5, 6⟩, false, "b"⟩ (.cons ⟨.punct .exp, ⟨7, 9⟩, false, "**"⟩
      (.cons ⟨.identifier "c", ⟨10, 11⟩, false, "c"⟩ (.cons ⟨.punct .minus, ⟨12, 13⟩, false, "-"⟩
      (.cons ⟨.identifier "d", ⟨14, 15⟩, false, "d"⟩ (.done ⟨.eof, ⟨15, 15⟩, false, ""⟩)))))))
    let a := Expr.identifier "a" ⟨0, 1⟩
    let b := Expr.identifier "b" ⟨5, 6⟩
    let c := Expr.identifier "c" ⟨10, 11⟩
    let d := Expr.identifier "d" ⟨14, 15⟩
    let last : State := ⟨.done ⟨.eof, ⟨15, 15⟩, false, ""⟩, 15⟩
    stream.Ended ∧ (∃ mid, OperandAt ⟨stream, 0⟩ a mid ∧
      InfixesAt mid [(.binary .exp, b), (.binary .exp, c), (.binary .sub, d)] last) ∧
      binary (grammar 7) 1 ⟨stream, 0⟩ =
        .ok (.binary .sub (.binary .exp a (.binary .exp b c ⟨5, 11⟩) ⟨0, 11⟩) d ⟨0, 15⟩, last) := by
  intro stream a b c d last
  have hended : stream.Ended := rfl
  have hrow : ∃ mid, OperandAt ⟨stream, 0⟩ a mid ∧
      InfixesAt mid [(.binary .exp, b), (.binary .exp, c), (.binary .sub, d)] last :=
    ⟨_, ⟨1, rfl⟩, .step rfl ⟨1, rfl⟩ (.step rfl ⟨1, rfl⟩ (.step rfl ⟨1, rfl⟩ (.stop rfl rfl)))⟩
  refine ⟨hended, hrow, ?_⟩
  obtain ⟨mid, hfirst, hmore⟩ := hrow
  have hinfixes : ∃ tree : OpTree, binary (grammar 7) 1 ⟨stream, 0⟩ = .ok (tree.toExpr, last) ∧ tree.first = a ∧
      tree.rest = [(.binary .exp, b), (.binary .exp, c), (.binary .sub, d)] ∧ tree.Ordered ∧
      ∀ other : OpTree, other.first = a → other.rest = [(.binary .exp, b), (.binary .exp, c), (.binary .sub, d)] →
        other.Ordered → other = tree := binary_infixes hended (Nat.le_refl 7) hfirst hmore
  obtain ⟨tree, hread, -, -, -, hunique⟩ := hinfixes
  have htree := hunique (.node (.binary .sub)
    (.node (.binary .exp) (.operand a) (.node (.binary .exp) (.operand b) (.operand c))) (.operand d)) rfl rfl
    (by simp only [OpTree.Ordered, OpTree.AtLeast]; decide)
  rw [hread, ← htree]
  rfl

end Parse
end FieldScript
