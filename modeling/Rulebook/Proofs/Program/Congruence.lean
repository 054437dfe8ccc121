import Mathlib.Data.List.Forall2
import Rulebook.Program.Expr
import Rulebook.Proofs.Node.Linked

/-!
# Relations between parses

Two parses that are put together in the same way do the same as far as their moves do: a token that
is taken, a node that is made, a limit that is checked. So a relation between computations holds of
every production once it holds of the moves and is kept by putting computations together.

What is compared is left open. The tokens and the nodes of the two parses may be the same ones, or
differ in their places; the first parse may come to its end where the second one goes on; and
either may be refused by a limit. The tokens that are left are counted, so that there is fuel on
both sides.

## Main definitions

* `Node.Formed`: the nodes that expressions are made of, side by side
* `Parse.Comparison`: how the tokens and the nodes of two parses compare
* `Parse.Congruence`: a relation that holds of moves and is kept by putting computations together
* `Parse.Stuck`: a computation that comes to no result in front of some tokens
* `Parse.Congruence.Nests`: a congruence that is kept when productions are nested

## Main results

* `Parse.primary_rel`, `Parse.operation_rel`: the parts of expressions are related
* `Parse.exprWith_rel`: so are expressions if their operands are
* `Parse.expr_rel`: so are expressions
-/

namespace Rulebook

/-! ## Tokens -/

section Tokens

/-- No expression takes the end, the keyword of a rule, or a semicolon. -/
def TokenKind.delimits : TokenKind → Bool
  | .eof | .kwRule | .semicolon => true
  | _ => false

/-- A comma or a closing parenthesis. -/
def TokenKind.breaks : TokenKind → Bool
  | .comma | .rparen => true
  | _ => false

/-- No expression begins with the end, a closing parenthesis or a colon. -/
def TokenKind.begins : TokenKind → Bool
  | .eof | .rparen | .colon => false
  | _ => true

/-- The kinds of tokens inside of expressions, other than question marks and those that an
expression may stand in front of. -/
def TokenKind.joins : TokenKind → Bool
  | .rbrace | .question => false
  | kind => !kind.delimits && !kind.breaks

theorem TokenKind.mem_of_ends {kind : TokenKind} (h : kind.delimits = true ∨ kind.breaks = true) :
    kind = .eof ∨ kind = .kwRule ∨ kind = .semicolon ∨ kind = .comma ∨ kind = .rparen := by
  rcases h with h | h
  · cases kind <;> simp_all [TokenKind.delimits]
  · cases kind <;> simp_all [TokenKind.breaks]

theorem TokenKind.ne_of_joins {kind other : TokenKind} (h : kind.joins = true)
    (hother : other.joins = false) : kind ≠ other := by
  rintro rfl
  rw [h] at hother
  cases hother

/-- The kinds that make a name a call or an assignment. -/
def TokenKind.continues? : TokenKind → Option TokenKind
  | .lparen => some .lparen
  | .assign => some .assign
  | _ => none

theorem continues?_eq_some {kind kind' : TokenKind} (h : kind.continues? = some kind') :
    kind = kind' := by
  cases kind <;> simp_all [TokenKind.continues?]

/-- Only verdicts are read from letters. -/
theorem TokenKind.eq_of_inContext {golf : Bool} {context : ReadContext} {kind kind' : TokenKind}
    (h : kind.inContext golf context = kind') (hverdict : kind'.isVerdict = false) :
    kind = kind' := by
  subst h
  cases kind with
  | identifier name =>
    simp only [TokenKind.inContext] at hverdict ⊢
    split
    · next hgolf =>
      rw [if_pos hgolf] at hverdict
      split
      · next hletter =>
        rw [hletter] at hverdict
        cases hverdict
      · rfl
    · rfl
  | _ => rfl

end Tokens

/-! ## Nodes side by side -/

/-- The new nodes of two expressions. Their operands are related, and their texts and numbers come
from tokens of some kinds, or from a node that stands where a consequence is expected. -/
inductive Node.Formed (kinds : TokenKind → Prop) (N : Node → Node → Prop) :
    Kind Node → List Node → Kind Node → List Node → Prop
  | literal {l : Literal} (hnumber : ∀ x, l = .number x → kinds (.number x))
      (hstring : ∀ s, l = .string s → kinds (.string s)) :
      Formed kinds N (.literal l) [] (.literal l) []
  | identifier {name : String} (h : kinds (.identifier name)) :
      Formed kinds N (.identifier name) [] (.identifier name) []
  | ruleCall {name : String} (h : kinds (.identifier name)) :
      Formed kinds N (.ruleCall name) [] (.ruleCall name) []
  | assignment {name : String} {a b : Node} (h : kinds (.identifier name)) (hvalue : N a b) :
      Formed kinds N (.consequence { action := name, kind := .assign }) [a]
        (.consequence { action := name, kind := .assign }) [b]
  | verdict (v : Verdict) :
      Formed kinds N (.consequence { action := v.name, kind := .verdict v }) []
        (.consequence { action := v.name, kind := .verdict v }) []
  | weighted (v : Verdict) {weight : Float} (h : kinds (.number weight)) :
      Formed kinds N (.consequence { action := v.name, kind := .verdict v, weight }) []
        (.consequence { action := v.name, kind := .verdict v, weight }) []
  | custom {action : String} {a b : Node} (h : N a b)
      (haction : a.kind = .identifier action ∨ a.kind = .literal (.string action)) :
      Formed kinds N (.consequence { action, kind := .custom }) []
        (.consequence { action, kind := .custom }) []
  | decision {a b yes yes' : Node} {no no' : Option Node} (h : N a b) (hyes : N yes yes')
      (hno : Option.Rel N no no') :
      Formed kinds N (.decision (some a) (some yes) no) [] (.decision (some b) (some yes') no') []
  | logic {op : LogicOp} {a b right right' : Node} (hop : op ≠ .not) (h : N a b)
      (hright : N right right') :
      Formed kinds N (.logic op (some a) (some right)) [] (.logic op (some b) (some right')) []
  | not {a b : Node} (h : N a b) :
      Formed kinds N (.logic .not (some a) none) [] (.logic .not (some b) none) []
  | comparison (op : CompareOp) {a b right right' : Node} (h : N a b) (hright : N right right') :
      Formed kinds N (.comparison op (some a) (some right)) []
        (.comparison op (some b) (some right')) []
  | arithmetic (op : ArithOp) {a b right right' : Node} (h : N a b) (hright : N right right') :
      Formed kinds N (.arithmetic op (some a) (some right)) []
        (.arithmetic op (some b) (some right')) []
  | neg {a b : Node} (h : N a b) :
      Formed kinds N (.arithmetic .neg (some a) none) [] (.arithmetic .neg (some b) none) []
  | chain (order : ChainOrder) {a b right right' : Node} (h : N a b) (hright : N right right') :
      Formed kinds N (.chain order (some a) (some right)) []
        (.chain order (some b) (some right')) []

/-- A node whose first child takes no more levels than some depth. -/
def Node.Over (depth : Nat) (n : Node) : Prop :=
  ∃ c rest, n.childNodes = c :: rest ∧ c.depth ≤ depth

theorem Node.over_linked {id : NodeId} {kind : Kind Node} {children : List Node} {first : Node}
    {rest : List Node} {span : Span} {line depth : Nat}
    (hchildren : kind.operands ++ children = first :: rest) (h : first.depth ≤ depth) :
    Over depth ((linked id kind children).withSpan span line) := by
  refine ⟨first.withParent id, rest.map (.withParent id), ?_, ?_⟩
  · rw [childNodes_withSpan, childNodes_linked, hchildren, List.map_cons]
  · rwa [depth_withParent]

theorem Node.Over.depth_le {n : Node} {depth height : Nat} (h : Over depth n)
    (hd : depth ≤ height) : n.depth ≤ Parse.stackedHeight n height := by
  obtain ⟨c, rest, hc, hle⟩ := h
  rw [Node.depth_eq, Parse.stackedHeight, hc, Node.tallest_cons, List.drop_one, List.tail_cons]
  have hle : c.depth ≤ height := hle.trans hd
  show 1 + max c.depth (Node.tallest rest) ≤ 1 + max height (Node.tallest rest)
  omega

namespace Parse

/-! ## Runs -/

section Runs

variable {τ : Type} {α β : Type} {s t : ParseState τ} {a : α}

/-- Behind two computations that both came to a result there are two results, and states between
them. -/
theorem exists_of_run_bind {x : ParseFrom τ β} {f : β → ParseFrom τ α}
    (h : EStateM.run (x >>= f) s = .ok a t) :
    ∃ b u, EStateM.run x s = .ok b u ∧ EStateM.run (f b) u = .ok a t := by
  rw [EStateM.run_bind] at h
  split at h
  · next b u hx => exact ⟨b, u, hx, h⟩
  · cases h

/-- What a production that was not refused did one level deeper. -/
theorem exists_of_run_nested {settings : ParseSettings} {x : ParseFrom τ α}
    (h : EStateM.run (nested settings x) s = .ok a t) :
    ∃ u, EStateM.run x { s with depth := s.depth + 1 } = .ok a u ∧
      t = { u with depth := u.depth - 1 } := by
  simp only [EStateM.run, nested] at h ⊢
  split at h
  · cases h
  · split at h
    · next u hx =>
      cases h
      exact ⟨u, hx, rfl⟩
    · cases h

/-- In front of tokens of some kind a computation comes to no result. -/
def Stuck (kind : TokenKind) (x : ParseFrom τ α) : Prop :=
  ∀ s : ParseState τ, s.current.kind = kind → ∀ a t, EStateM.run x s ≠ .ok a t

variable {kind : TokenKind}

theorem Stuck.bind {x : ParseFrom τ β} {f : β → ParseFrom τ α} (h : Stuck kind x) :
    Stuck kind (x >>= f) := by
  intro s hs a t hrun
  obtain ⟨b, u, hx, -⟩ := exists_of_run_bind hrun
  exact h s hs b u hx

theorem Stuck.get {f : ParseState τ → ParseFrom τ α}
    (h : ∀ s : ParseState τ, s.current.kind = kind → Stuck kind (f s)) :
    Stuck kind (MonadState.get >>= f) :=
  fun s hs => h s hs s hs

theorem Stuck.current {f : Token → ParseFrom τ α}
    (h : ∀ t : Token, t.kind = kind → Stuck kind (f t)) : Stuck kind (Parse.current >>= f) :=
  fun s hs => h s.current hs s hs

theorem stuck_failHere (message : String) : Stuck kind (failHere message : ParseFrom τ α) := by
  intro s _ a t
  have hrun : EStateM.run (failHere message : ParseFrom τ α) s =
      .error (.malformed message s.current.span s.current.line s.current.column) s := rfl
  rw [hrun]
  rintro ⟨⟩

theorem stuck_failExpecting (what : String) : Stuck kind (failExpecting what : ParseFrom τ α) :=
  .get fun _ _ => stuck_failHere _

/-- A token that has to be there is the current one. -/
theorem stuck_expect [TokenSource τ] {expected : TokenKind} (h : kind ≠ expected) (what : String) :
    Stuck kind (expect expected what : ParseFrom τ Token) := by
  refine .get fun s hs => ?_
  have hneither : (s.current.kind == expected) = false := beq_eq_false_iff_ne.2 (hs ▸ h)
  show Stuck kind (if s.current.kind == expected then advance else failExpecting what)
  rw [hneither]
  exact stuck_failExpecting what

theorem stuck_nested {settings : ParseSettings} {x : ParseFrom τ α} (h : Stuck kind x) :
    Stuck kind (nested settings x) := by
  intro s hs a t hrun
  obtain ⟨u, hx, -⟩ := exists_of_run_nested hrun
  exact h { s with depth := s.depth + 1 } hs a u hx

theorem current_bind_const (x : ParseFrom τ α) : (current >>= fun _ => x) = x :=
  rfl

theorem isAt_bind (kind : TokenKind) (f : Bool → ParseFrom τ α) :
    (isAt kind >>= f) = current >>= fun t => f (t.kind == kind) :=
  rfl

theorem accept_bind [TokenSource τ] (kind : TokenKind) (f : Bool → ParseFrom τ α) :
    (accept kind >>= f) =
      isAt kind >>= fun b => if b then advance >>= fun _ => f true else f false := by
  rw [accept, bind_assoc]
  refine bind_congr fun b => ?_
  cases b <;> simp

end Runs

/-! ## Congruences -/

/-- How the tokens and the nodes of two parses compare. -/
structure Comparison (settings settings' : ParseSettings) where
  /-- Tokens in the same place, other than the end. -/
  token : Token → Token → Prop
  /-- What kinds such tokens may have. -/
  kinds : TokenKind → Prop
  /-- The end of the first parse, and the token of the second parse in its place. -/
  ends : Token → Token → Prop
  /-- Nodes that are made in the same place. -/
  node : Node → Node → Prop
  /-- Nothing differs in the two parses. -/
  exact : Prop
  token_ne : ∀ {t t'}, token t t' → t.kind ≠ .eof
  token_kind : ∀ {t t'}, token t t' → t'.kind = t.kind
  token_kinds : ∀ {t t'}, token t t' → kinds t.kind
  token_read : ∀ {t t'}, token t t' → ∀ context,
    (t'.inContext settings'.golf context).kind = (t.inContext settings.golf context).kind
  token_eq : exact → ∀ {t t'}, token t t' → t' = t
  ends_kind : ∀ {t t'}, ends t t' → t.kind = .eof
  ends_stops : ∀ {t t'}, ends t t' → t'.kind.delimits = true ∨ t'.kind.breaks = true
  ends_eq : exact → ∀ {t t'}, ends t t' → t' = t
  node_eq : exact → ∀ {a b}, node a b → b = a
  node_depth : ∀ {a b}, node a b → a.depth = b.depth
  node_children : ∀ {a b}, node a b → a.childNodes.map Node.depth = b.childNodes.map Node.depth
  node_identifier : ∀ {a b}, node a b → ∀ name,
    a.kind = .identifier name ↔ b.kind = .identifier name
  node_string : ∀ {a b}, node a b → ∀ s,
    a.kind = .literal (.string s) ↔ b.kind = .literal (.string s)
  node_letter : ∀ {a b}, node a b → ∀ name, a.kind = .identifier name →
    golfVerdict? settings' name = golfVerdict? settings name
  node_withSpan : ∀ {a b}, node a b → ∀ {span span' line line'}, (exact → span' = span) →
    (exact → line' = line) → node (a.withSpan span line) (b.withSpan span' line')
  node_formed : ∀ {kind cs kind' cs'}, Node.Formed kinds node kind cs kind' cs' →
    ∀ {id id' span span' line line'}, (exact → id' = id) → (exact → span' = span) →
      (exact → line' = line) → node ((Node.linked id kind cs).withSpan span line)
        ((Node.linked id' kind' cs').withSpan span' line')

namespace Comparison

variable {settings settings' : ParseSettings} (M : Comparison settings settings')

/-- Two tokens that are current in the same place, the end of the first parse included. -/
def Met (t t' : Token) : Prop :=
  M.token t t' ∨ M.ends t t'

/-- The same, if nothing differs. -/
def Tied {α : Type} (a b : α) : Prop :=
  M.exact → b = a

variable {M} {α β γ : Type}

theorem Tied.map {a b : α} (f : α → β) (h : M.Tied a b) : M.Tied (f a) (f b) :=
  fun hexact => congrArg f (h hexact)

theorem Tied.map₂ {a b : α} {a' b' : β} (f : α → β → γ) (h : M.Tied a b) (h' : M.Tied a' b') :
    M.Tied (f a a') (f b b') :=
  fun hexact => congrArg₂ f (h hexact) (h' hexact)

variable (M)

theorem tied_self (a : α) : M.Tied a a :=
  fun _ => rfl

theorem tied_token {t t' : Token} (h : M.token t t') : M.Tied t t' :=
  fun hexact => M.token_eq hexact h

theorem tied_met {t t' : Token} (h : M.Met t t') : M.Tied t t' :=
  fun hexact => h.elim (M.token_eq hexact) (M.ends_eq hexact)

theorem tied_node {a b : Node} (h : M.node a b) : M.Tied a b :=
  fun hexact => M.node_eq hexact h

variable {M}

/-- The places of two operations, from that of their first operands or tokens on. -/
theorem Tied.merge {span span' : Span} (h : M.Tied span span') {a b : Node} (hn : M.node a b) :
    M.Tied (span.merge a.span) (span'.merge b.span) :=
  h.map₂ Span.merge ((M.tied_node hn).map Node.span)

variable (M) in
/-- The first parse ends in front of no token inside of an expression. -/
theorem not_joins {t t' : Token} (h : M.ends t t') : t'.kind.joins = false := by
  rcases TokenKind.mem_of_ends (M.ends_stops h) with h | h | h | h | h <;> rw [h] <;> rfl

theorem map_depth_eq {ns ns' : List Node} (h : List.Forall₂ M.node ns ns') :
    ns.map Node.depth = ns'.map Node.depth := by
  induction h with
  | nil => rfl
  | cons hn _ ih => rw [List.map_cons, List.map_cons, M.node_depth hn, ih]

theorem stackedHeight_eq {a b : Node} (h : M.node a b) (height : Nat) :
    stackedHeight a height = stackedHeight b height := by
  rw [stackedHeight, stackedHeight, List.map_drop, List.map_drop, M.node_children h]

end Comparison

/-- What is known of the place of two parses. -/
inductive Front where
  | anywhere
  /-- In front of two tokens. -/
  | at (t t' : Token)

/-- What is known holds of two states. -/
def Front.Holds {τ τ' : Type} (s : ParseState τ) (s' : ParseState τ') : Front → Prop
  | .anywhere => True
  | .at t t' => s.current = t ∧ s'.current = t'

/-- A relation between the computations of two parses. At most `n` tokens are left before them, at
most `l` behind them if they come to results, and these are related by `Q`. -/
structure Congruence {settings settings' : ParseSettings} (M : Comparison settings settings')
    (τ τ' : Type) [TokenSource τ] [TokenSource τ'] where
  /-- For what heights of trees there is room. -/
  room : Nat → Prop
  room_mono : ∀ {h h'}, h ≤ h' → room h' → room h
  Rel : {α β : Type} → (n : Nat) → Front → (l : Nat) → (α → β → Prop) → ParseFrom τ α →
    ParseFrom τ' β → Prop
  pure : ∀ {α β : Type} {n : Nat} {Q : α → β → Prop} {a : α} {b : β}, Q a b →
    Rel n .anywhere n Q (Pure.pure a) (Pure.pure b)
  bind : ∀ {α β γ δ : Type} {n m l : Nat} {front : Front} {R : γ → δ → Prop} {Q : α → β → Prop}
    {x : ParseFrom τ γ} {y : ParseFrom τ' δ} {f : γ → ParseFrom τ α} {g : δ → ParseFrom τ' β},
    Rel n front m R x y → (∀ a b, R a b → Rel m .anywhere l Q (f a) (g b)) →
      Rel n front l Q (x >>= f) (y >>= g)
  weaken : ∀ {α β : Type} {n l l' : Nat} {front : Front} {Q Q' : α → β → Prop} {x : ParseFrom τ α}
    {y : ParseFrom τ' β}, Rel n front l' Q' x y → l' ≤ l → (∀ a b, Q' a b → Q a b) →
      Rel n front l Q x y
  coarsen : ∀ {α β : Type} {n l : Nat} {t t' : Token} {Q : α → β → Prop} {x : ParseFrom τ α}
    {y : ParseFrom τ' β}, Rel n .anywhere l Q x y → Rel n (.at t t') l Q x y
  /-- The current tokens are looked at. Others are left if they are not the end. -/
  current : ∀ {α β : Type} {n l : Nat} {Q : α → β → Prop} {f : Token → ParseFrom τ α}
    {g : Token → ParseFrom τ' β},
    (∀ t t', M.Met t t' → (M.token t t' → 0 < n) → Rel n (.at t t') l Q (f t) (g t')) →
      Rel n .anywhere l Q (Parse.current >>= f) (Parse.current >>= g)
  /-- Tokens that are known are looked at again. -/
  look : ∀ {α β : Type} {n l : Nat} {t t' : Token} {Q : α → β → Prop} {f : Token → ParseFrom τ α}
    {g : Token → ParseFrom τ' β}, Rel n (.at t t') l Q (f t) (g t') →
      Rel n (.at t t') l Q (Parse.current >>= f) (Parse.current >>= g)
  /-- Tokens are taken. -/
  take : ∀ {α β : Type} {n l : Nat} {t t' : Token} {Q : α → β → Prop} {f : Token → ParseFrom τ α}
    {g : Token → ParseFrom τ' β}, M.token t t' → t.kind ≠ .rbrace →
      (t.kind = .question → Stuck .colon (f t)) →
      (0 < n → Rel (n - 1) .anywhere l Q (f t) (g t')) →
      Rel n (.at t t') l Q (advance >>= f) (advance >>= g)
  /-- A name is taken. What stands behind it was looked at, and is found there if it counts. -/
  ahead : ∀ {α β : Type} {n l : Nat} {t t' : Token} {name : String} {Q : α → β → Prop}
    {f : TokenKind → ParseFrom τ α} {g : TokenKind → ParseFrom τ' β}, M.token t t' →
      t.kind = .identifier name →
      (∀ kind, kind.continues? = some kind → ∀ u u', M.token u u' → u.kind = kind →
        Rel (n - 1) (.at u u') l Q (f kind) (g kind)) →
      (∀ kind kind', kind.continues? = none → kind'.continues? = none →
        Rel (n - 1) .anywhere l Q (f kind) (g kind')) →
      Rel n (.at t t') l Q (nextKind >>= fun kind => advance >>= fun _ => f kind)
        (nextKind >>= fun kind => advance >>= fun _ => g kind)
  /-- There is fuel for all tokens that are left. -/
  remaining : ∀ {α β : Type} {n l : Nat} {front : Front} {Q : α → β → Prop}
    {f : Nat → ParseFrom τ α} {g : Nat → ParseFrom τ' β},
    (∀ m fuel fuel', m ≤ n → m < fuel → m < fuel' → Rel m front l Q (f fuel) (g fuel')) →
      Rel n front l Q (MonadState.get >>= fun s => f s.remaining)
        (MonadState.get >>= fun s => g s.remaining)
  make : ∀ {n : Nat} {Q : Node → Node → Prop} {kind kind' : Kind Node} {cs cs' : List Node}
    {span span' : Span} {line line' : Nat}, (∀ id id', M.Tied id id' →
      Q ((Node.linked id kind cs).withSpan span line)
        ((Node.linked id' kind' cs').withSpan span' line')) →
    Rel n .anywhere n Q (Parse.make (Node.makeWith kind cs) span line)
      (Parse.make (Node.makeWith kind' cs') span' line')
  checkHeight : ∀ {n : Nat} (height : Nat), Rel n .anywhere n (fun _ _ => room height)
    (Parse.checkHeight height) (Parse.checkHeight height)
  fail : ∀ {α β : Type} {n l : Nat} {t t' : Token} {Q : α → β → Prop} {message message' : String},
    M.Met t t' → (t'.kind = t.kind → message' = message) →
      Rel n (.at t t') l Q (failHere message : ParseFrom τ α) (failHere message' : ParseFrom τ' β)
  /-- Where the second parse goes on behind the end of the first one, this one comes to nothing. -/
  stuck : ∀ {α β : Type} {n l : Nat} {t t' : Token} {Q : α → β → Prop} {x : ParseFrom τ α}
    {y : ParseFrom τ' β}, M.ends t t' → t'.kind.breaks = true → Stuck .eof x →
      Rel n (.at t t') l Q x y

section Rules

variable {τ τ' : Type} [TokenSource τ] [TokenSource τ'] {settings settings' : ParseSettings}
  {M : Comparison settings settings'}
  {C : Congruence M τ τ'} {α β : Type} {n l m : Nat} {front : Front}
  {Q : α → β → Prop}

variable (C)

theorem Congruence.loosen {x : ParseFrom τ α} {y : ParseFrom τ' β} (h : C.Rel n front m Q x y)
    (hl : m ≤ l) : C.Rel n front l Q x y :=
  C.weaken h hl fun _ _ h => h

theorem Congruence.post {Q' : α → β → Prop} {x : ParseFrom τ α} {y : ParseFrom τ' β}
    (h : C.Rel n front l Q x y) (hQ : ∀ a b, Q a b → Q' a b) : C.Rel n front l Q' x y :=
  C.weaken h (Nat.le_refl l) hQ

theorem Congruence.ite {c : Prop} [Decidable c] {x₁ x₂ : ParseFrom τ α} {y₁ y₂ : ParseFrom τ' β}
    (h₁ : C.Rel n front l Q x₁ y₁) (h₂ : C.Rel n front l Q x₂ y₂) :
    C.Rel n front l Q (if c then x₁ else x₂) (if c then y₁ else y₂) := by
  split
  · exact h₁
  · exact h₂

/-- A token is taken, and nothing else. -/
theorem Congruence.takeToken {t t' : Token} (ht : M.token t t') (hbrace : t.kind ≠ .rbrace)
    (hquestion : t.kind ≠ .question) : C.Rel n (.at t t') (n - 1) M.Tied advance advance := by
  have h : C.Rel n (.at t t') (n - 1) M.Tied (advance >>= Pure.pure) (advance >>= Pure.pure) :=
    C.take ht hbrace (fun h => absurd h hquestion) fun _ => C.pure (M.tied_token ht)
  rwa [bind_pure, bind_pure] at h

theorem Congruence.failHere {message : String} :
    C.Rel n .anywhere l Q (failHere message : ParseFrom τ α)
      (failHere message : ParseFrom τ' β) := by
  rw [← current_bind_const (Parse.failHere message : ParseFrom τ α),
    ← current_bind_const (Parse.failHere message : ParseFrom τ' β)]
  exact C.current fun t t' ht _ => C.fail ht fun _ => rfl

theorem Congruence.failExpecting {what : String} :
    C.Rel n .anywhere l Q (failExpecting what : ParseFrom τ α)
      (failExpecting what : ParseFrom τ' β) :=
  C.current fun t t' ht _ => C.fail ht fun hkind => by rw [hkind]

/-- A token is looked for. Where the first parse is at its end the second one may find it. -/
theorem Congruence.isAt_stop (kind : TokenKind) (heof : kind ≠ .eof) {f : Bool → ParseFrom τ α}
    {g : Bool → ParseFrom τ' β}
    (hyes : ∀ t t', M.token t t' → t.kind = kind → C.Rel n (.at t t') l Q (f true) (g true))
    (hno : C.Rel n .anywhere l Q (f false) (g false))
    (hends : ∀ t t', M.ends t t' → t'.kind = kind → kind.breaks = true ∧ Stuck .eof (f false)) :
    C.Rel n .anywhere l Q (isAt kind >>= f) (isAt kind >>= g) := by
  rw [isAt_bind, isAt_bind]
  refine C.current fun t t' ht _ => ?_
  rcases ht with ht | ht
  · rw [M.token_kind ht]
    cases hk : t.kind == kind with
    | true => exact hyes t t' ht (beq_iff_eq.1 hk)
    | false => exact C.coarsen hno
  · have hneither : (t.kind == kind) = false := beq_eq_false_iff_ne.2 (M.ends_kind ht ▸ heof.symm)
    rw [hneither]
    cases hk : t'.kind == kind with
    | false => exact C.coarsen hno
    | true =>
      have hkind : t'.kind = kind := beq_iff_eq.1 hk
      obtain ⟨hbreak, hstuck⟩ := hends t t' ht hkind
      exact C.stuck ht (hkind ▸ hbreak) hstuck

/-- A token is looked for that takes part in expressions only. -/
theorem Congruence.isAt (kind : TokenKind) (hkind : kind.joins = true) {f : Bool → ParseFrom τ α}
    {g : Bool → ParseFrom τ' β}
    (hyes : ∀ t t', M.token t t' → t.kind = kind → C.Rel n (.at t t') l Q (f true) (g true))
    (hno : C.Rel n .anywhere l Q (f false) (g false)) :
    C.Rel n .anywhere l Q (isAt kind >>= f) (isAt kind >>= g) :=
  C.isAt_stop kind (TokenKind.ne_of_joins hkind rfl) hyes hno
    fun _ _ hends h => absurd hkind (Bool.eq_false_iff.1 (h ▸ M.not_joins hends))

/-- A token is taken if it is there. -/
theorem Congruence.accept (kind : TokenKind) (hkind : kind.joins = true)
    {f : Bool → ParseFrom τ α} {g : Bool → ParseFrom τ' β}
    (hyes : 0 < n → C.Rel (n - 1) .anywhere l Q (f true) (g true))
    (hno : C.Rel n .anywhere l Q (f false) (g false)) :
    C.Rel n .anywhere l Q (accept kind >>= f) (accept kind >>= g) := by
  rw [accept_bind, accept_bind]
  refine C.isAt kind hkind (fun t t' ht h => ?_) hno
  have hne {other : TokenKind} (hother : other.joins = false) : t.kind ≠ other :=
    h ▸ TokenKind.ne_of_joins hkind hother
  exact C.take ht (hne rfl) (fun hquestion => absurd hquestion (hne rfl)) hyes

/-- A token that has to be there. -/
theorem Congruence.expect (kind : TokenKind) (hkind : kind.joins = true) {what : String} :
    C.Rel n .anywhere n M.Tied (expect kind what) (expect kind what) := by
  refine C.isAt kind hkind (fun t t' ht h => ?_) C.failExpecting
  exact C.loosen (C.takeToken ht (h ▸ TokenKind.ne_of_joins hkind rfl)
    (h ▸ TokenKind.ne_of_joins hkind rfl)) (Nat.sub_le n 1)

/-- A closing parenthesis that has to be there is not looked for at the end of the first parse. -/
theorem Congruence.expectClose {what : String} :
    C.Rel n .anywhere n M.Tied (Parse.expect .rparen what) (Parse.expect .rparen what) := by
  refine C.isAt_stop .rparen (by simp) (fun t t' ht h => ?_) C.failExpecting fun _ _ _ _ =>
    ⟨rfl, stuck_failExpecting what⟩
  exact C.loosen (C.takeToken ht (by simp [h]) (by simp [h])) (Nat.sub_le n 1)

end Rules

/-! ## New nodes -/

section Nodes

variable {τ τ' : Type} [TokenSource τ] [TokenSource τ'] {settings settings' : ParseSettings}
  {M : Comparison settings settings'}
  {C : Congruence M τ τ'} {n l : Nat} {span span' : Span} {line line' : Nat}

/-- A new node, and what is said of it on its own. -/
theorem make_rel {P : Node → Prop} {node node' : Fresh Node} {kind kind' : Kind Node}
    {cs cs' : List Node} (hnode : node = Node.makeWith kind cs)
    (hnode' : node' = Node.makeWith kind' cs')
    (hP : ∀ id, P ((Node.linked id kind cs).withSpan span line))
    (h : Node.Formed M.kinds M.node kind cs kind' cs') (hspan : M.Tied span span')
    (hline : M.Tied line line') :
    C.Rel n .anywhere n (fun a b => M.node a b ∧ P a) (make node span line)
      (make node' span' line') := by
  subst hnode hnode'
  exact C.make fun id id' hid => ⟨M.node_formed h hid hspan hline, hP id⟩

theorem node_rel {node node' : Fresh Node} {kind kind' : Kind Node} {cs cs' : List Node}
    (hnode : node = Node.makeWith kind cs)
    (hnode' : node' = Node.makeWith kind' cs')
    (h : Node.Formed M.kinds M.node kind cs kind' cs') (hspan : M.Tied span span')
    (hline : M.Tied line line') :
    C.Rel n .anywhere n M.node (make node span line) (make node' span' line') :=
  C.post (make_rel (P := fun _ => True) hnode hnode' (fun _ => trivial) h hspan hline)
    fun _ _ h => h.1

/-- A consequence is a leaf, or the node that stands for it. -/
theorem toConsequence_rel {a b : Node} (h : M.node a b) :
    C.Rel n .anywhere n (fun c d => M.node c d ∧ c.depth ≤ a.depth)
      (toConsequence settings a) (toConsequence settings' b) := by
  have hspan : M.Tied a.span b.span := (M.tied_node h).map Node.span
  have hline : M.Tied a.line b.line := (M.tied_node h).map Node.line
  -- A leaf is no deeper than the tree that it replaces.
  have hleaf {action : String} {kind : ConsequenceKind}
      (hformed : Node.Formed M.kinds M.node (.consequence { action, kind }) []
        (.consequence { action, kind }) []) :
      C.Rel n .anywhere n (fun c d => M.node c d ∧ c.depth ≤ a.depth)
        (make (Node.consequence action kind) a.span a.line)
        (make (Node.consequence action kind) b.span b.line) := by
    refine make_rel (P := fun c => c.depth ≤ a.depth) rfl rfl
      (fun id => ?_) hformed hspan hline
    rw [Node.depth_withSpan, Node.depth_linked]
    exact a.depth_pos
  rw [toConsequence, toConsequence]
  by_cases hname : ∃ name, a.kind = .identifier name
  · obtain ⟨name, hname⟩ := hname
    rw [hname, (M.node_identifier h name).1 hname]
    dsimp only
    rw [M.node_letter h name hname]
    split
    · exact hleaf (.verdict _)
    · exact hleaf (.custom h (.inl hname))
  by_cases hstring : ∃ s, a.kind = .literal (.string s)
  · obtain ⟨s, hstring⟩ := hstring
    rw [hstring, (M.node_string h s).1 hstring]
    exact hleaf (.custom h (.inr hstring))
  -- Other nodes stay what they are.
  · split
    · next name hk => exact absurd ⟨name, hk⟩ hname
    · next s hk => exact absurd ⟨s, hk⟩ hstring
    · split
      · next name hk => exact absurd ⟨name, (M.node_identifier h name).2 hk⟩ hname
      · next s hk => exact absurd ⟨s, (M.node_string h s).2 hk⟩ hstring
      · exact C.pure ⟨h, Nat.le_refl _⟩

theorem chainHead_rel {a b : Node} (h : M.node a b) (context : ReadContext) :
    C.Rel n .anywhere n (fun c d => M.node c d ∧ c.depth ≤ a.depth)
      (chainHead settings a context) (chainHead settings' b context) := by
  rw [chainHead, chainHead]
  by_cases hname : ∃ name, a.kind = .identifier name
  · obtain ⟨name, hname⟩ := hname
    rw [hname, (M.node_identifier h name).1 hname]
    dsimp only
    rw [M.node_letter h name hname]
    exact C.ite (C.pure ⟨h, Nat.le_refl _⟩) (toConsequence_rel h)
  · split
    · next name hk => exact absurd ⟨name, hk⟩ hname
    · split
      · next name hk => exact absurd ⟨name, (M.node_identifier h name).2 hk⟩ hname
      · exact toConsequence_rel h

theorem verdict_rel (v : Verdict) (hspan : M.Tied span span') (hline : M.Tied line line') :
    C.Rel n .anywhere n M.node (verdict v span line) (verdict v span' line') := by
  have hplain : C.Rel n .anywhere n M.node (make (Node.consequence v.name (.verdict v)) span line)
      (make (Node.consequence v.name (.verdict v)) span' line') :=
    node_rel rfl rfl (.verdict v) hspan hline
  refine C.accept .lparen rfl (fun _ => ?_) hplain
  refine C.current fun t t' ht _ => ?_
  have hfail (what : String) : C.Rel (n - 1) (.at t t') n M.node
      (failHere what : ParseFrom τ Node) (failHere what : ParseFrom τ' Node) :=
    C.fail ht fun _ => rfl
  rcases ht with ht | ht
  · rw [M.token_kind ht]
    cases hk : t.kind with
    | number weight =>
      refine C.bind (C.takeToken ht (by simp [hk]) (by simp [hk])) fun _ _ _ => ?_
      refine C.bind C.expectClose fun close close' hclose => ?_
      refine C.loosen ?_ (by omega : n - 1 - 1 ≤ n)
      exact node_rel rfl rfl (.weighted v (hk ▸ M.token_kinds ht))
        (hspan.map₂ Span.merge (hclose.map Token.span)) hline
    | _ => exact hfail _
  -- What the second parse ends in front of is no number either.
  · rw [M.ends_kind ht]
    rcases TokenKind.mem_of_ends (M.ends_stops ht) with h | h | h | h | h <;> rw [h] <;>
      exact hfail _

end Nodes

/-! ## Expressions without operators behind them -/

section Primary

variable {τ τ' : Type} [TokenSource τ] [TokenSource τ'] {settings settings' : ParseSettings}
  {M : Comparison settings settings'}
  {C : Congruence M τ τ'} {n l : Nat} {span span' : Span} {line line' : Nat}
  {start start' t t' : Token}

/-- How operands are parsed on both sides, where fewer than `n` tokens are left. -/
structure Congruence.Operands (C : Congruence M τ τ') (n : Nat) (operand : OperandParser τ)
    (operand' : OperandParser τ') : Prop where
  rel : ∀ m < n, ∀ strength context, C.Rel m .anywhere m M.node (operand strength context)
    (operand' strength context)
  stuck : ∀ kind : TokenKind, kind.begins = false → ∀ strength context,
    Stuck kind (operand strength context)

theorem Congruence.Operands.mono {operand : OperandParser τ} {operand' : OperandParser τ'} {m : Nat}
    (h : C.Operands n operand operand') (hm : m ≤ n) : C.Operands m operand operand' :=
  ⟨fun k hk => h.rel k (hk.trans_le hm), h.stuck⟩

theorem constant_rel (ht : M.token t t') (hbrace : t.kind ≠ .rbrace)
    (hquestion : t.kind ≠ .question) {literal : Literal}
    (hnumber : ∀ x, literal = .number x → M.kinds (.number x))
    (hstring : ∀ s, literal = .string s → M.kinds (.string s)) {u u' : Token}
    (hspan : M.Tied u.span u'.span) (hline : M.Tied u.line u'.line) :
    C.Rel n (.at t t') (n - 1) M.node (constant literal u) (constant literal u') :=
  C.bind (C.takeToken ht hbrace hquestion) fun _ _ _ =>
    node_rel rfl rfl (.literal hnumber hstring) hspan hline

theorem joinAll_rel {op : LogicOp} (hop : op ≠ .not) {a b : Node} (hab : M.node a b)
    {ns ns' : List Node} (h : List.Forall₂ M.node ns ns') :
    C.Rel n .anywhere n M.node (joinAll op a ns) (joinAll op b ns') := by
  induction h generalizing a b with
  | nil => exact C.pure hab
  | cons hright _ ih =>
    exact C.bind (node_rel rfl rfl (.logic hop hab hright) (M.tied_self _)
      (M.tied_self _)) fun _ _ h => ih h

variable {operand : OperandParser τ} {operand' : OperandParser τ'}

/-- The computation for a name as it goes on behind the name. -/
theorem named_eq {τ : Type} [TokenSource τ] (operand : OperandParser τ) (name : String)
    (span : Span) (line : Nat) : named operand name span line = nextKind >>= fun kind =>
      advance >>= fun _ =>
        match kind with
        | .lparen => do
          let _ ← advance
          let close ← expect .rparen "')' to close rule call"
          make (Node.ruleCall name) (span.merge close.span) line
        | .assign => do
          let _ ← advance
          let value ← operand Strength.ternary .condition
          make (Node.assignment name value) (span.merge value.span) line
        | _ => make (Node.identifier name) span line := by
  rw [named]
  refine bind_congr fun kind => ?_
  cases kind <;> rfl

section Operands

variable {N : Nat} (hop : C.Operands N operand operand')
include hop

theorem consequence_rel (hn : n < N) :
    C.Rel n .anywhere n M.node (consequence settings operand) (consequence settings' operand') :=
  C.bind (hop.rel n hn _ _) fun _ _ h => C.post (toConsequence_rel h) fun _ _ h => h.1

theorem decisionTail_rel (hn : n < N) {a b : Node} (h : M.node a b) (hstart : M.Tied start start') :
    C.Rel n .anywhere n M.node (decisionTail settings operand a start)
      (decisionTail settings' operand' b start') := by
  refine C.bind (consequence_rel hop hn) fun yes yes' hyes => ?_
  have hclose {no no' : Option Node} (hno : Option.Rel M.node no no') (m : Nat) :
      C.Rel m .anywhere m M.node
        (expect .kwEnd "'end' to close decision" >>= fun close =>
          make (Node.decision a (some yes) no) (start.span.merge close.span) start.line)
        (expect .kwEnd "'end' to close decision" >>= fun close =>
          make (Node.decision b (some yes') no') (start'.span.merge close.span) start'.line) :=
    C.bind (C.expect .kwEnd rfl) fun close close' hclose =>
      node_rel rfl rfl (.decision h hyes hno)
        ((hstart.map Token.span).map₂ Span.merge (hclose.map Token.span)) (hstart.map Token.line)
  refine C.accept .kwElse rfl (fun _ => C.loosen ?_ (Nat.sub_le n 1)) ?_
  · refine C.bind (consequence_rel hop (Nat.sub_lt_of_lt hn)) fun no no' hno => ?_
    exact C.bind (C.pure (Option.Rel.some hno)) fun _ _ hno => hclose hno _
  · exact C.bind (C.pure Option.Rel.none) fun _ _ hno => hclose hno n

/-- Each operand but the last one takes a comma, so there is fuel left on both sides. What comes
behind the operands comes to nothing at the end of the first parse, where the second one may read
further operands. -/
theorem quantified_rel {k : Nat} {f : List Node → ParseFrom τ Node}
    {g : List Node → ParseFrom τ' Node}
    (hfg : ∀ m ≤ k, ∀ ns ns', List.Forall₂ M.node ns ns' →
      C.Rel m .anywhere l M.node (f ns) (g ns'))
    (hstuck : ∀ ns, Stuck .eof (f ns)) (fuel fuel' : Nat) (hn : n ≤ k) (hk : k < N)
    (hfuel : n < fuel)
    (hfuel' : n < fuel') {done done' : List Node} (hdone : List.Forall₂ M.node done done') :
    C.Rel n .anywhere l M.node (quantified operand fuel done >>= f)
      (quantified operand' fuel' done' >>= g) := by
  induction fuel generalizing n fuel' done done' with
  | zero => exact absurd hfuel (Nat.not_lt_zero n)
  | succ fuel ih =>
    obtain ⟨fuel', rfl⟩ := Nat.exists_eq_succ_of_ne_zero (Nat.ne_zero_of_lt hfuel')
    simp only [quantified, bind_assoc]
    refine C.bind (hop.rel n (hn.trans_lt hk) _ _) fun a b hab => ?_
    have hmore : List.Forall₂ M.node (a :: done) (b :: done') := .cons hab hdone
    rw [accept_bind, accept_bind]
    refine C.isAt_stop .comma (by simp) (fun t t' ht hkind => ?_) ?_ fun _ _ _ _ =>
      ⟨rfl, hstuck _⟩
    · refine C.take ht (by simp [hkind]) (by simp [hkind]) fun hpos => ?_
      exact ih _ (by omega) (by omega) (by omega) hmore
    · exact hfg n hn _ _ (List.forall₂_reverse_iff.2 hmore)

/-- Operands up to a closing parenthesis, of which there may be none, and what is made of them. -/
theorem operands_rel (hn : n < N) {f : List Node → ParseFrom τ Node}
    {g : List Node → ParseFrom τ' Node}
    (hfg : ∀ m ≤ n, ∀ ns ns', List.Forall₂ M.node ns ns' →
      C.Rel m .anywhere l M.node (f ns) (g ns'))
    (hstuck : ∀ ns, Stuck .eof (f ns)) :
    C.Rel n .anywhere l M.node
      (isAt .rparen >>= fun closed =>
        if closed then pure [] >>= f
        else MonadState.get >>= fun s => quantified operand s.remaining [] >>= f)
      (isAt .rparen >>= fun closed =>
        if closed then pure [] >>= g
        else MonadState.get >>= fun s => quantified operand' s.remaining [] >>= g) := by
  refine C.isAt_stop .rparen (by simp) (fun t t' ht _ => ?_) ?_ fun _ _ _ _ => ⟨rfl, ?_⟩
  · exact C.coarsen (hfg n (Nat.le_refl n) [] [] .nil)
  · exact C.remaining fun m fuel fuel' hm hfuel hfuel' =>
      quantified_rel hop hfg hstuck fuel fuel' hm hn hfuel hfuel' .nil
  -- At the end of a parse there is no first operand.
  · exact .get fun s _ => Stuck.bind (.bind (hop.stuck .eof rfl _ _))

end Operands

section Tokens

variable (ht : M.token t t') (hop : C.Operands n operand operand')
include ht hop

/-- The token behind a name decides what the name is, if a look ahead finds it. -/
theorem named_rel {name : String} (hname : t.kind = .identifier name) (hspan : M.Tied span span')
    (hline : M.Tied line line') :
    C.Rel n (.at t t') (n - 1) M.node (named operand name span line)
      (named operand' name span' line') := by
  have hkinds : M.kinds (.identifier name) := hname ▸ M.token_kinds ht
  rw [named_eq, named_eq]
  refine C.ahead ht hname (fun kind hkind u u' hu hukind => ?_) fun kind kind' hkind hkind' => ?_
  · have htake {f : ParseFrom τ Node} {g : ParseFrom τ' Node}
        (h : 0 < n → C.Rel (n - 1 - 1) .anywhere (n - 1) M.node f g)
        (hbrace : u.kind ≠ .rbrace) (hquestion : u.kind ≠ .question) :
        C.Rel (n - 1) (.at u u') (n - 1) M.node (advance >>= fun _ => f) (advance >>= fun _ => g) :=
      C.take hu hbrace (fun h => absurd h hquestion) fun hpos => h (by omega)
    cases kind with
    | lparen =>
      refine htake (fun _ => C.loosen ?_ (Nat.sub_le _ 1)) (by simp [hukind]) (by simp [hukind])
      exact C.bind C.expectClose fun close close' hclose =>
        node_rel rfl rfl (.ruleCall hkinds)
          (hspan.map₂ Span.merge (hclose.map Token.span)) hline
    | assign =>
      refine htake (fun hpos => C.loosen ?_ (Nat.sub_le _ 1)) (by simp [hukind]) (by simp [hukind])
      exact C.bind (hop.rel _ (by omega) _ _) fun value value' hvalue =>
        node_rel rfl rfl (.assignment hkinds hvalue) (hspan.merge hvalue) hline
    | _ => cases hkind
  · have hplain : C.Rel (n - 1) .anywhere (n - 1) M.node (make (Node.identifier name) span line)
        (make (Node.identifier name) span' line') :=
      node_rel rfl rfl (.identifier hkinds) hspan hline
    split
    · cases hkind
    · cases hkind
    · split
      · cases hkind'
      · cases hkind'
      · exact hplain

theorem quantifier_rel {op : LogicOp} (hnot : op ≠ .not) (hbrace : t.kind ≠ .rbrace)
    (hquestion : t.kind ≠ .question) :
    C.Rel n (.at t t') (n - 1) M.node (quantifier operand op) (quantifier operand' op) := by
  refine C.take ht hbrace (fun h => absurd h hquestion) fun hpos => ?_
  refine C.bind (C.expect .lparen rfl) fun _ _ _ => ?_
  refine operands_rel hop (Nat.sub_one_lt_of_lt hpos) (fun m hm operands operands' ho => ?_)
    fun operands => .bind (stuck_expect (by simp) _)
  refine C.bind C.expectClose fun close close' hclose => ?_
  have hstart : M.Tied t.span t'.span := (M.tied_token ht).map Token.span
  have hspan : M.Tied (t.span.merge close.span) (t'.span.merge close'.span) :=
    hstart.map₂ Span.merge (hclose.map Token.span)
  have hline : M.Tied t.line t'.line := (M.tied_token ht).map Token.line
  -- The height is the same on both sides.
  rw [← Comparison.map_depth_eq ho, ← ho.length_eq]
  refine C.bind (C.checkHeight _) fun _ _ _ => C.loosen ?_ hm
  cases ho with
  | nil => exact node_rel rfl rfl (.literal (by simp) (by simp)) hspan hline
  | cons hfirst hrest =>
    exact C.bind (joinAll_rel hnot hfirst hrest) fun _ _ h =>
      C.pure (M.node_withSpan h hspan hline)

theorem ifDecision_rel (hbrace : t.kind ≠ .rbrace) (hquestion : t.kind ≠ .question) :
    C.Rel n (.at t t') (n - 1) M.node (ifDecision settings operand)
      (ifDecision settings' operand') := by
  refine C.take ht hbrace (fun h => absurd h hquestion) fun hpos => ?_
  refine C.bind (hop.rel _ (Nat.sub_one_lt_of_lt hpos) _ _) fun condition condition' hc => ?_
  refine C.bind (C.expect .kwThen rfl) fun _ _ _ => ?_
  exact decisionTail_rel hop (Nat.sub_one_lt_of_lt hpos) hc (M.tied_token ht)

theorem whenDecision_rel (hbrace : t.kind ≠ .rbrace) (hquestion : t.kind ≠ .question) :
    C.Rel n (.at t t') (n - 1) M.node (whenDecision settings operand)
      (whenDecision settings' operand') := by
  refine C.take ht hbrace (fun h => absurd h hquestion) fun hpos => ?_
  refine C.bind (hop.rel _ (Nat.sub_one_lt_of_lt hpos) _ _) fun condition condition' hc => ?_
  -- What follows the keyword `do`, or the sign that may stand for it.
  have hbody (m : Nat) (hm : m ≤ n - 1) : C.Rel m .anywhere (n - 1) M.node
      (consequence settings operand >>= fun body =>
        make (Node.decision condition (some body) none) (t.span.merge body.span) t.line)
      (consequence settings' operand' >>= fun body =>
        make (Node.decision condition' (some body) none) (t'.span.merge body.span) t'.line) := by
    refine C.loosen (C.bind (consequence_rel hop (by omega)) fun body body' hb => ?_) hm
    exact node_rel rfl rfl (.decision hc hb .none)
      (((M.tied_token ht).map Token.span).merge hb) ((M.tied_token ht).map Token.line)
  refine C.accept .kwDo rfl (fun _ => hbody _ (Nat.sub_le _ 1)) ?_
  refine C.accept .fatArrow rfl (fun _ => hbody _ (Nat.sub_le _ 1)) ?_
  have hfail (what : String) : C.Rel (n - 1) .anywhere (n - 1) (fun _ _ => True)
      (failHere what : ParseFrom τ Unit) (failHere what : ParseFrom τ' Unit) := C.failHere
  exact C.bind (hfail _) fun _ _ _ => hbody _ (Nat.le_refl _)

end Tokens

theorem primary_rel (hop : C.Operands n operand operand') (context : ReadContext) :
    C.Rel n .anywhere (n - 1) M.node (primary settings operand context)
      (primary settings' operand' context) := by
  refine C.current fun t t' ht _ => ?_
  rcases ht with ht | ht
  · have hread {kind : TokenKind} (h : (t.inContext settings.golf context).kind = kind)
        (hverdict : kind.isVerdict = false) : t.kind = kind :=
      TokenKind.eq_of_inContext h hverdict
    have hspan : M.Tied t.span t'.span := (M.tied_token ht).map Token.span
    have hline : M.Tied t.line t'.line := (M.tied_token ht).map Token.line
    have hkinds := M.token_kinds ht
    dsimp only
    rw [M.token_read ht context]
    -- One case for each way in which an expression begins.
    cases hkind : (t.inContext settings.golf context).kind with
    | number x =>
      have hkind := hread hkind rfl
      rw [hkind] at hkinds
      exact constant_rel ht (by simp [hkind]) (by simp [hkind])
        (by rintro _ ⟨⟩; exact hkinds) (by simp) hspan hline
    | string s =>
      have hkind := hread hkind rfl
      rw [hkind] at hkinds
      exact constant_rel ht (by simp [hkind]) (by simp [hkind]) (by simp)
        (by rintro _ ⟨⟩; exact hkinds) hspan hline
    | kwTrue | underscore | kwFalse | kwNull =>
      have hkind := hread hkind rfl
      exact constant_rel ht (by simp [hkind]) (by simp [hkind]) (by simp) (by simp) hspan hline
    | identifier name => exact named_rel ht hop (hread hkind rfl) hspan hline
    | verdict v =>
      have hne {other : TokenKind} (hother : other.inContext settings.golf context ≠ .verdict v) :
          t.kind ≠ other := by
        rintro rfl
        exact hother hkind
      refine C.take ht (hne (by simp [TokenKind.inContext])) (fun h => absurd h
        (hne (by simp [TokenKind.inContext]))) fun _ => verdict_rel v hspan hline
    | bang =>
      have hkind := hread hkind rfl
      refine C.take ht (by simp [hkind]) (by simp [hkind]) fun hpos => ?_
      refine C.bind (hop.rel _ (Nat.sub_one_lt_of_lt hpos) _ _) fun a b hab => ?_
      exact node_rel rfl rfl (.not hab) (hspan.merge hab) hline
    | minus =>
      have hkind := hread hkind rfl
      refine C.take ht (by simp [hkind]) (by simp [hkind]) fun hpos => ?_
      refine C.bind (hop.rel _ (Nat.sub_one_lt_of_lt hpos) _ _) fun a b hab => ?_
      exact node_rel rfl rfl (.neg hab) (hspan.merge hab) hline
    | lparen =>
      have hkind := hread hkind rfl
      refine C.take ht (by simp [hkind]) (by simp [hkind]) fun hpos => ?_
      refine C.bind (hop.rel _ (Nat.sub_one_lt_of_lt hpos) _ _) fun a b hab => ?_
      exact C.bind C.expectClose fun _ _ _ => C.pure hab
    | kwAny | kwAll =>
      have hkind := hread hkind rfl
      exact quantifier_rel ht hop (by simp) (by simp [hkind]) (by simp [hkind])
    | kwIf | kwWhen =>
      have hkind := hread hkind rfl
      first
        | exact ifDecision_rel ht hop (by simp [hkind]) (by simp [hkind])
        | exact whenDecision_rel ht hop (by simp [hkind]) (by simp [hkind])
    | _ => exact C.fail (.inl ht) fun _ => rfl
  -- No expression begins where the first parse is at its end, nor in front of what stands there.
  · have hfail {message : String} (h : t'.kind = t.kind →
        message = "expected expression, found '" ++ TokenKind.eof.text ++ "'") :
        C.Rel n (.at t t') (n - 1) M.node
          (failHere ("expected expression, found '" ++ TokenKind.eof.text ++ "'") :
            ParseFrom τ Node)
          (failHere message : ParseFrom τ' Node) :=
      C.fail (.inr ht) h
    simp only [Token.inContext, M.ends_kind ht]
    rcases TokenKind.mem_of_ends (M.ends_stops ht) with h | h | h | h | h
    all_goals
      rw [h]
      refine hfail fun heq => ?_
      rw [h, M.ends_kind ht] at heq
      cases heq <;> rfl

end Primary

/-! ## Operations -/

section Operations

variable {τ τ' : Type} [TokenSource τ] [TokenSource τ'] {settings settings' : ParseSettings}
  {M : Comparison settings settings'}
  {C : Congruence M τ τ'} {n : Nat} {operand : OperandParser τ}
  {operand' : OperandParser τ'}

/-- The first operand of a new operation is the node in front of the operator, or a consequence that
stands for it. -/
theorem operation_rel {t t' : Token} (ht : M.token t t')
    (hop : C.Operands n operand operand') (joint : Joint)
    (hjoint : Joint.ofToken? t.kind = some joint) {a b : Node} (hab : M.node a b)
    (context : ReadContext) :
    C.Rel n (.at t t') (n - 1) (fun c d => M.node c d ∧ c.Over a.depth)
      (operation settings operand joint a context)
      (operation settings' operand' joint b context) := by
  have hbrace : t.kind ≠ .rbrace := by
    intro h
    rw [h] at hjoint
    cases hjoint
  have hspan {first first' right right' : Node} (hf : M.node first first')
      (hr : M.node right right') :
      M.Tied (first.span.merge right.span) (first'.span.merge right'.span) :=
    ((M.tied_node hf).map Node.span).merge hr
  have hline : M.Tied a.line b.line := (M.tied_node hab).map Node.line
  refine C.take ht hbrace (fun hquestion => ?_) fun hpos => ?_
  · rw [hquestion] at hjoint
    cases hjoint
    exact .bind (.bind (hop.stuck .colon rfl _ _))
  -- The node of an operation, whose first operand is no deeper than before.
  have hmake {m : Nat} {node node' : Fresh Node} {kind kind' : Kind Node} {first first' : Node}
      {rest : List Node} {right right' : Node} (hnode : node = Node.makeWith kind [])
      (hnode' : node' = Node.makeWith kind' [])
      (hformed : Node.Formed M.kinds M.node kind [] kind' []) (hfirst : M.node first first')
      (hright : M.node right right') (hoperands : kind.operands = first :: rest)
      (hdepth : first.depth ≤ a.depth) :
      C.Rel m .anywhere m (fun c d => M.node c d ∧ c.Over a.depth)
        (make node (first.span.merge right.span) a.line)
        (make node' (first'.span.merge right'.span) b.line) :=
    make_rel hnode hnode' (fun id => Node.over_linked (by rw [List.append_nil, hoperands]) hdepth)
      hformed (hspan hfirst hright) hline
  have hright {m : Nat} (hm : m < n) (strength : Nat) (context : ReadContext) :=
    hop.rel m hm strength context
  cases joint with
  | chain order =>
    refine C.bind (hright (by omega) _ _) fun _ _ h => ?_
    refine C.bind (toConsequence_rel h) fun right right' hr => ?_
    refine C.bind (chainHead_rel hab context) fun first first' hf => ?_
    exact hmake rfl rfl (.chain order hf.1 hr.1) hf.1 hr.1 rfl hf.2
  | choice =>
    refine C.bind (consequence_rel hop (by omega)) fun yes yes' hyes => ?_
    refine C.bind (C.expect .colon rfl) fun _ _ _ => ?_
    refine C.bind (hright (by omega) _ _) fun _ _ h => ?_
    refine C.bind (toConsequence_rel h) fun no no' hno => ?_
    exact hmake rfl rfl (.decision hab hyes (.some hno.1)) hab hno.1 rfl
      (Nat.le_refl _)
  | arm =>
    refine C.bind (hright (by omega) _ _) fun _ _ h => ?_
    refine C.bind (toConsequence_rel h) fun body body' hb => ?_
    exact hmake rfl rfl (.decision hab hb.1 .none) hab hb.1 rfl (Nat.le_refl _)
  | logic op =>
    have hnot : op ≠ .not := by
      rintro rfl
      revert hjoint
      cases t.kind <;> simp [Joint.ofToken?]
    refine C.bind (hright (by omega) _ _) fun right right' hr => ?_
    exact hmake rfl rfl (.logic hnot hab hr) hab hr rfl (Nat.le_refl _)
  | comparison op =>
    refine C.bind (hright (by omega) _ _) fun right right' hr => ?_
    exact hmake rfl rfl (.comparison op hab hr) hab hr rfl (Nat.le_refl _)
  | arithmetic op =>
    refine C.bind (hright (by omega) _ _) fun right right' hr => ?_
    exact hmake rfl rfl (.arithmetic op hab hr) hab hr rfl (Nat.le_refl _)

/-- Each operation takes a token, so there is fuel left on both sides. -/
theorem operations_rel (strength : Nat) (context : ReadContext)
    (hop : C.Operands n operand operand') {m : Nat} (hm : m ≤ n) (fuel fuel' : Nat)
    (hfuel : m < fuel) (hfuel' : m < fuel') {a b : Node} (hab : M.node a b) {height : Nat}
    (hdepth : a.depth ≤ height) (hroom : C.room height) :
    C.Rel m .anywhere m (fun c d => M.node c d ∧ C.room c.depth)
      (operations settings operand strength context fuel a height)
      (operations settings' operand' strength context fuel' b height) := by
  induction fuel generalizing m fuel' a b height with
  | zero => exact absurd hfuel (Nat.not_lt_zero m)
  | succ fuel ih =>
    obtain ⟨fuel', rfl⟩ := Nat.exists_eq_succ_of_ne_zero (Nat.ne_zero_of_lt hfuel')
    have hdone : C.Rel m .anywhere m (fun c d => M.node c d ∧ C.room c.depth) (pure a) (pure b) :=
      C.pure ⟨hab, C.room_mono hdepth hroom⟩
    refine C.current fun t t' ht hpos => ?_
    rcases ht with ht | ht
    · have hpos := hpos ht
      rw [M.token_kind ht]
      cases hjoint : Joint.ofToken? t.kind with
      | none => exact C.coarsen hdone
      | some joint =>
        refine C.ite (C.coarsen hdone) ?_
        refine C.bind (operation_rel ht (hop.mono hm) joint hjoint hab context) fun c d h => ?_
        obtain ⟨hcd, hover⟩ := h
        dsimp only
        rw [← Comparison.stackedHeight_eq hcd]
        refine C.bind (C.checkHeight _) fun _ _ hroom => C.loosen ?_ (Nat.sub_le m 1)
        exact ih (by omega) _ (by omega) (by omega) hcd (hover.depth_le hdepth) hroom
    -- No operator is in front of the second parse where the first one is at its end.
    · rw [M.ends_kind ht]
      rcases TokenKind.mem_of_ends (M.ends_stops ht) with h | h | h | h | h <;> rw [h] <;>
        exact C.coarsen hdone

theorem exprWith_rel (strength : Nat) (context : ReadContext)
    (hop : C.Operands n operand operand') :
    C.Rel n .anywhere (n - 1) (fun c d => M.node c d ∧ C.room c.depth)
      (exprWith settings operand strength context)
      (exprWith settings' operand' strength context) := by
  refine C.bind (primary_rel hop context) fun a b hab => ?_
  dsimp only
  rw [← M.node_depth hab]
  refine C.bind (C.checkHeight _) fun _ _ hroom => ?_
  refine C.remaining (f := fun fuel => operations settings operand strength context fuel a a.depth)
    (g := fun fuel => operations settings' operand' strength context fuel b a.depth)
    fun m fuel fuel' hm hfuel hfuel' => ?_
  exact C.loosen (operations_rel strength context hop (by omega) fuel fuel' hfuel hfuel' hab
    (Nat.le_refl _) hroom) hm

end Operations

/-! ## Levels of nesting -/

section Levels

/-- No expression begins with the end, a closing parenthesis or a colon. -/
theorem stuck_primary {τ : Type} [TokenSource τ] {settings : ParseSettings}
    {operand : OperandParser τ} {kind : TokenKind} (hkind : kind.begins = false)
    (context : ReadContext) : Stuck kind (primary settings operand context) := by
  refine .current fun t ht => ?_
  have hread : (t.inContext settings.golf context).kind = kind := by
    rw [← ht] at hkind ⊢
    simp only [Token.inContext]
    cases h : t.kind <;> rw [h] at hkind <;> cases hkind <;> rfl
  dsimp only
  rw [hread]
  cases kind <;> first | exact stuck_failHere _ | cases hkind

theorem stuck_expr {τ : Type} [TokenSource τ] {settings : ParseSettings} {kind : TokenKind}
    (hkind : kind.begins = false) (levels strength : Nat) (context : ReadContext) :
    Stuck kind (expr settings levels strength context : ParseFrom τ Node) := by
  cases levels with
  | zero => exact fun s _ a t hrun => nomatch hrun
  | succ levels => exact stuck_nested (.bind (stuck_primary hkind context))

variable {τ τ' : Type} [TokenSource τ] [TokenSource τ'] {settings settings' : ParseSettings}
  {M : Comparison settings settings'}
  {C : Congruence M τ τ'} {n : Nat}

/-- A congruence that is kept when productions are nested, given how many levels are left on both
sides. One side may be refused where the other one is not. -/
structure Congruence.Nests (C : Congruence M τ τ') (levels : Nat → Nat → Prop) :
    Prop where
  below : ∀ {k k'}, levels (k + 1) (k' + 1) → levels k k'
  nested : ∀ {k k'}, levels (k + 1) (k' + 1) → ∀ {n l front} {α β : Type} {Q : α → β → Prop}
    {x : ParseFrom τ α} {y : ParseFrom τ' β}, C.Rel n front l Q x y →
      C.Rel n front l Q (Parse.nested settings x) (Parse.nested settings' y)
  neither : levels 0 0 → ∀ {n l front} {α β : Type} {Q : α → β → Prop},
    C.Rel n front l Q (throw (.tooDeep "parser" settings.maxDepth) : ParseFrom τ α)
      (throw (.tooDeep "parser" settings'.maxDepth) : ParseFrom τ' β)
  left : ∀ {k}, levels (k + 1) 0 → ∀ {n l front} {α β : Type} {Q : α → β → Prop}
    {x : ParseFrom τ α},
    C.Rel n front l Q x (throw (.tooDeep "parser" settings'.maxDepth) : ParseFrom τ' β)
  right : ∀ {k}, levels 0 (k + 1) → ∀ {n l front} {α β : Type} {Q : α → β → Prop}
    {y : ParseFrom τ' β},
    C.Rel n front l Q (throw (.tooDeep "parser" settings.maxDepth) : ParseFrom τ α) y

/-- Expressions are related, and each takes a token at least. -/
theorem expr_rel {levels : Nat → Nat → Prop} (h : C.Nests levels) {k k' : Nat} (hk : levels k k')
    (strength : Nat) (context : ReadContext) :
    C.Rel n .anywhere (n - 1) (fun c d => M.node c d ∧ C.room c.depth)
      (expr settings k strength context) (expr settings' k' strength context) := by
  induction k generalizing n k' strength context with
  | zero =>
    cases k' with
    | zero => exact h.neither hk
    | succ k' => exact h.right hk
  | succ k ih =>
    cases k' with
    | zero => exact h.left hk
    | succ k' =>
      refine h.nested hk (exprWith_rel strength context ⟨fun m _ strength context => ?_,
        fun kind hkind strength context => stuck_expr hkind k strength context⟩)
      exact C.weaken (ih (h.below hk) strength context) (Nat.sub_le m 1) fun _ _ h => h.1

end Levels

end Parse

end Rulebook
