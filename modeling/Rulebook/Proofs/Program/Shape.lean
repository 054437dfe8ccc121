import Rulebook.Proofs.Program.Akin
import Rulebook.Proofs.Program.Alike
import Rulebook.Proofs.Program.Rows

/-!
# The shape of productions

Each production is akin to itself with other identities, other places of its nodes and, if its
limit is higher, more levels to nest in. So what holds of all computations that are akin holds of
all productions. Expressions and statements note no errors; rows of items do.

## Main definitions

* `Parse.akin`, `Parse.akinItems`: computations of one shape, as congruences
* `Parse.Deepens`: productions may be nested as deeply, or more deeply

## Main results

* `Parse.statement_akin`: statements have one shape, and take at least one token
* `Parse.root_akin`: so do whole sources
-/

namespace Rulebook

namespace Parse

/-! ## The congruence -/

section Congruence

variable (settings settings' : ParseSettings) (golf : settings'.golf = settings.golf)

/-- Tokens are the same, and nodes are equal. -/
def sameTokens : Comparison settings settings' :=
  .alike (fun t t' => t' = t ∧ t.kind.IsProper) (fun t t' => t.kind = .eof ∧ t' = t) golf
    (fun h => congrArg Token.kind h.1) (fun h => h.2) (fun h => h.1)
    fun h => .inl (by rw [h.2, h.1]; rfl)

/-- Two computations have one shape, from one place on if that is known. -/
def AkinAt {α β : Type} (loud : Prop) (n : Nat) (front : Front) (l : Nat) (Q : α → β → Prop)
    (x : Parse α) (y : Parse β) : Prop :=
  match front with
  | .anywhere => Akin settings settings' loud n l .nothing Q x y
  | .at t t' => t' = t → ∀ k, Akin settings settings' loud n l (.here t k) Q x y

variable {settings settings'} {loud : Prop} {α β γ δ : Type} {n n' m l l' : Nat} {front : Front}
  {R : γ → δ → Prop} {Q : α → β → Prop}

/-- What holds whatever is known of the place. -/
theorem AkinAt.of_forall {x : Parse α} {y : Parse β}
    (h : ∀ P, Akin settings settings' loud n l P Q x y) :
    AkinAt settings settings' loud n front l Q x y := by
  cases front with
  | anywhere => exact h _
  | «at» t t' => exact fun _ _ => h _

theorem AkinAt.map {Q' : γ → δ → Prop} {x : Parse α} {y : Parse β} {x' : Parse γ} {y' : Parse δ}
    (h : AkinAt settings settings' loud n front l Q x y)
    (hmap : ∀ P, Akin settings settings' loud n l P Q x y →
      Akin settings settings' loud n' l' P Q' x' y') :
    AkinAt settings settings' loud n' front l' Q' x' y' := by
  cases front with
  | anywhere => exact hmap _ h
  | «at» t t' => exact fun ht k => hmap _ (h ht k)

theorem AkinAt.bind {x : Parse γ} {y : Parse δ} {f : γ → Parse α} {g : δ → Parse β}
    (hx : AkinAt settings settings' loud n front m R x y)
    (hf : ∀ a b, R a b → Akin settings settings' loud m l .nothing Q (f a) (g b)) :
    AkinAt settings settings' loud n front l Q (x >>= f) (y >>= g) :=
  hx.map fun _ hx => hx.bind hf

/-- A token is taken that is known. -/
theorem AkinAt.take {t t' : Token} (hne : t.kind ≠ .eof) {f : Token → Parse α} {g : Token → Parse β}
    (h : 0 < n → Akin settings settings' loud (n - 1) l .nothing Q (f t) (g t')) :
    AkinAt settings settings' loud n (.at t t') l Q (advance >>= f) (advance >>= g) := by
  rintro rfl k
  refine .advance (fun u _ hhere => hhere.1 ▸ hne) fun u _ hhere hpos => ?_
  rw [hhere.1]
  exact (h hpos).anywhere

/-- A name is taken, behind which a look ahead found something. -/
theorem AkinAt.ahead {t t' : Token} {name : String} (hname : t.kind = .identifier name)
    {f : TokenKind → Parse α} {g : TokenKind → Parse β}
    (hfound : ∀ kind, kind.continues? = some kind → ∀ u : Token, u.kind.IsProper → u.kind = kind →
      ∀ k, Akin settings settings' loud (n - 1) l (.here u k) Q (f kind) (g kind))
    (hplain : ∀ kind kind', kind.continues? = none → kind'.continues? = none →
      Akin settings settings' loud (n - 1) l .nothing Q (f kind) (g kind')) :
    AkinAt settings settings' loud n (.at t t') l Q
      (nextKind >>= fun kind => advance >>= fun _ => f kind)
      (nextKind >>= fun kind => advance >>= fun _ => g kind) := by
  rintro rfl k
  rw [nextKind_bind, nextKind_bind]
  refine .get fun s s' hs hn hhere => ?_
  have hname : s.current.kind = .identifier name := by rw [hhere.1, hname]
  have hcontinues := hs.continues?_eq (by rw [Token.isName, hname])
  refine .advance (fun u _ h => by simp [h.1, hname]) fun u k' h _ => ?_
  have hle : s.left - 1 ≤ n - 1 := Nat.sub_le_sub_right hn 1
  cases hkind : s.nextKind.continues? with
  | none => exact (hplain _ _ hkind (hcontinues.trans hkind)).anywhere.shorten hle
  | some kind =>
    obtain rfl := continues?_eq_some hkind
    rw [continues?_eq_some (hcontinues.trans hkind)]
    -- What was found is the current token now.
    rw [← current_bind_const (f _), ← current_bind_const (g _)]
    refine .current fun u k hproper hfoundHere => ?_
    have heof : s.nextKind ≠ .eof := by
      intro h
      rw [h] at hkind
      cases hkind
    rw [h.2] at hfoundHere
    have hu : u.kind = s.nextKind := hfoundHere heof
    exact (hfound _ hkind u (hproper (hu ▸ heof)).1 hu k).shorten hle

/-- Computations of one shape. -/
def akin (loud : Prop) : Congruence (sameTokens settings settings' golf) (List Token) (List Token)
    where
  room _ := True
  room_mono _ _ := trivial
  Rel n front l Q x y := AkinAt settings settings' loud n front l Q x y
  pure h := Akin.pure h
  bind := AkinAt.bind
  weaken h hl hQ :=
    AkinAt.map h fun _ h => h.weaken (Nat.le_refl _) hl (fun _ _ h => h) hQ
  coarsen h _ _ := Akin.anywhere h
  current h := Akin.current fun t k hproper _ => by
    by_cases heof : t.kind = .eof
    · exact h t t (.inr ⟨heof, rfl⟩) (fun ht => absurd heof ht.2.ne_eof) rfl k
    · exact h t t (.inl ⟨rfl, (hproper heof).1⟩) (fun _ => (hproper heof).2) rfl k
  look h := by
    rintro rfl k
    refine .current fun u k' _ hhere => ?_
    obtain ⟨rfl, rfl⟩ := hhere
    exact h rfl _
  take ht _ _ h := AkinAt.take ht.2.ne_eof h
  ahead _ hname hfound hplain :=
    AkinAt.ahead hname
      (fun kind hkind u hproper hu k => hfound kind hkind u u ⟨rfl, hproper⟩ hu rfl k) hplain
  remaining {_ _ _ _ front _ _ _} h := by
    cases front with
    | anywhere => exact Akin.remaining fun s s' m hm hs hs' => h m _ _ hm hs hs'
    | «at» t t' => exact fun ht k => .remaining fun s s' m hm hs hs' => h m _ _ hm hs hs' ht k
  make h := Akin.make fun id id' => h id id' False.elim
  checkHeight _ := Akin.checkHeight rfl
  fail ht h := by
    rintro rfl k
    rw [h rfl]
    exact .failHere
  stuck ht hbreak _ := by
    rw [ht.2, ht.1] at hbreak
    cases hbreak

end Congruence

/-! ## Levels of nesting -/

section Levels

variable {settings settings' : ParseSettings} {loud : Prop} {n : Nat} {P : Known}

/-- The second computation may nest productions as deeply as the first one, or more deeply. -/
structure Deepens (settings settings' : ParseSettings) (levels levels' : Nat) : Prop where
  golf : settings'.golf = settings.golf
  le : levels ≤ levels'
  limit : settings.maxDepth < settings'.maxDepth ∨
    settings'.maxDepth = settings.maxDepth ∧ levels' = levels

theorem Deepens.refl (settings : ParseSettings) (levels : Nat) :
    Deepens settings settings levels levels :=
  ⟨rfl, Nat.le_refl levels, .inr ⟨rfl, rfl⟩⟩

/-- Without a level that is left the first computation is refused, and the second one too if its
limit is the same. -/
theorem akin_nests (golf : settings'.golf = settings.golf) :
    (akin golf loud).Nests (Deepens settings settings') where
  below h := ⟨h.golf, Nat.le_of_succ_le_succ h.le,
    h.limit.imp_right fun h => ⟨h.1, Nat.succ.inj h.2⟩⟩
  nested _ := fun h => AkinAt.map h fun _ h => h.nested
  neither h := by
    -- With a higher limit the second computation may go on, so nothing is said of it.
    refine AkinAt.of_forall fun P => ?_
    rcases h.limit with hlt | ⟨hlimit, -⟩
    · exact .refused hlt
    · rw [hlimit]
      exact .throw _ fun _ _ _ => trivial
  left h := absurd h.le (Nat.not_succ_le_zero _)
  right h :=
    AkinAt.of_forall fun _ => .refused (h.limit.resolve_right fun heq => nomatch heq.2)

/-- Expressions have one shape, and take at least one token. -/
theorem expr_akin {levels levels' : Nat} (h : Deepens settings settings' levels levels')
    (strength : Nat) (context : ReadContext) :
    Akin settings settings' loud n (n - 1) P Node.Alike (expr settings levels strength context)
      (expr settings' levels' strength context) := by
  have hexpr : (akin h.golf loud).Rel n .anywhere (n - 1) _
      (expr settings levels strength context) (expr settings' levels' strength context) :=
    expr_rel (akin_nests h.golf) h strength context
  exact ((akin h.golf loud).post hexpr fun _ _ h => h.1 : Akin _ _ _ _ _ _ _ _ _).anywhere

theorem statement_akin {levels levels' : Nat} (h : Deepens settings settings' levels levels') :
    Akin settings settings' loud n (n - 1) P Node.Alike (statement settings (expr settings levels))
      (statement settings' (expr settings' levels')) := by
  have hstatement : (akin h.golf loud).Rel n .anywhere (n - 1) _
      (statement settings (expr settings levels)) (statement settings' (expr settings' levels')) :=
    statement_rel (fun _ strength context => expr_rel (akin_nests h.golf) h strength context)
      fun _ hkind strength context => stuck_expr hkind levels strength context
  exact ((akin h.golf loud).post hstatement fun _ _ h => h.1 : Akin _ _ _ _ _ _ _ _ _).anywhere

end Levels

/-! ## Items -/

section Items

variable {settings settings' : ParseSettings} {loud : Prop} {n : Nat} {P : Known}
  {insideRule : Bool}

/-- Items of one shape. Behind an error no other one is noted while tokens are passed over. -/
def akinItems (golf : settings'.golf = settings.golf) :
    ItemCongruence (sameTokens settings settings' golf) (List Token) (List Token) where
  within _ := akin golf True
  passing _ := akin golf False
  item := Node.Alike
  token_start ht := by rw [ht.1]
  ends_eof ht := ht.2 ▸ ht.1
  item_node h := h
  item_depth h := h.depth_eq
  item_block h _ _ _ _ _ _ _ _ _ := .block h _ _ _ _ _ _
  item_rule _ h _ _ _ _ _ _ _ _ _ := .rule h _ _ _ _ _ _
  takeBrace ht _ h := AkinAt.take ht.2.ne_eof h
  pass ht h := AkinAt.take ht.2.ne_eof h
  inRule h := AkinAt.map h fun _ h => h.inRule
  attempt {_ _ _ _ _ _ _ _ front _ _ _ _ _ _ _ _} hf hg hx hok hstill hmoved := by
    cases front with
    | anywhere =>
      exact .attempt trivial hf hg hx hok (fun _ => Akin.louder hstill) fun _ => Akin.louder hmoved
    | «at» t t' =>
      exact fun ht k => .attempt trivial hf hg hx.anywhere hok (fun _ => (hstill ht k).louder)
        fun _ => Akin.louder hmoved
  previous h := Akin.get fun _ _ _ hn _ => (h _ _ False.elim).anywhere.shorten hn

/-- Tokens are passed over in one way. -/
theorem passOver_akin (golf : settings'.golf = settings.golf) (mark : Nat) :
    Akin settings settings' False n n P (fun _ _ => True) (passOver mark insideRule)
      (passOver mark insideRule) :=
  Akin.anywhere (passOver_rel (I := akinItems golf) (k := 0) mark)

/-- Sources have one shape. -/
theorem root_akin (golf : settings'.golf = settings.golf)
    (hle : settings.maxDepth ≤ settings'.maxDepth) :
    Akin settings settings' True n n P Node.Alike (root settings) (root settings') := by
  have hlimit : settings.maxDepth < settings'.maxDepth ∨
      settings'.maxDepth = settings.maxDepth ∧ settings'.maxDepth = settings.maxDepth :=
    (Nat.lt_or_eq_of_le hle).imp_right fun h => ⟨h.symm, h.symm⟩
  have hroot : (akin golf True).Rel n .anywhere n _ (root settings) (root settings') :=
    root_rel (I := akinItems golf) (fun _ => akin_nests golf) ⟨golf, hle, hlimit⟩
  exact ((akin golf True).post hroot fun _ _ h => h.1 : Akin _ _ _ _ _ _ _ _ _).anywhere

end Items

end Parse

end Rulebook
