import GrammarAnalysis.Proofs.Viability

/-!
# Left recursion

Nothing in the LL(1) analysis looks for left recursion; SELECT sets meet
because of it. The reason is that a lookahead leaves one way to go on.

What is derived with a certain symbol in front can be derived by replacing
the front symbol each time, for the other replacements can wait
(`exists_frontDerives_of_derives`). In a sentential form that derives a
string of terminals, each of these steps uses a production for which the
first terminal, or the end-marker, is viable, so it is a step that this
lookahead *guides* (`guidedDerives_of_frontDerives`). Without conflicts a
guided step has one outcome, and as some guided derivation ends at the
lookahead itself, there is none without end.

A left-recursive nonterminal, however, leads back to itself by steps at
the front. In a reduced grammar it stands in a form that derives
terminals, so a lookahead guides it round once, and then for ever: a
guided step asks nothing of the symbols behind the front
(`WellFormed.not_isDeterministic_of_leftRecursive`). It makes no
difference whether the cycle is long, or hidden behind symbols that
vanish, or whether the nonterminal itself derives only the empty string.
-/

namespace GrammarAnalysis

/-! ## Relations with one outcome -/

section Outcome

variable {α : Type} {r : α → α → Prop} {a b : α}

/-- Where a step has one outcome and some derivation gets stuck, none goes
on for ever. -/
theorem acc_of_reaches_stuck (hr : Relator.RightUnique r) (h : Relation.ReflTransGen r a b)
    (hb : ∀ c, ¬ r b c) : Acc (Function.swap r) a := by
  induction h using Relation.ReflTransGen.head_induction_on with
  | refl => exact Acc.intro b (fun c hc => absurd hc (hb c))
  | @head a c hac _ ih => exact Acc.intro a (fun d had => hr hac had ▸ ih)

/-- A class of states that can be left only for another state of the class
holds none from which all derivations end. -/
theorem not_acc_of_recurring {C : α → Prop} (h : ∀ a, C a → ∃ b, C b ∧ Relation.TransGen r a b)
    (ha : C a) : ¬ Acc (Function.swap r) a := by
  intro hacc
  replace hacc := hacc.transGen
  induction hacc with
  | intro a _ ih =>
    obtain ⟨b, hb, hab⟩ := h a ha
    exact ih b (Relation.transGen_swap.mpr hab) hb

end Outcome

namespace Grammar

variable {g : Grammar} {p : Production} {c : Terminal} {x : Nonterminal}
  {u v w before after : List Symbol}

/-! ## Steps at the front -/

/-- **A step at the front**: the first symbol is replaced. -/
inductive FrontStep (g : Grammar) : List Symbol → List Symbol → Prop
  | expand {p : Production} (hp : p ∈ g.productions) (after : List Symbol) :
    FrontStep g (.nonterminal p.lhs :: after) (g.expansion p.rhs ++ after)

/-- **Derivation at the front**: any number of such steps. -/
def FrontDerives (g : Grammar) : List Symbol → List Symbol → Prop :=
  Relation.ReflTransGen g.FrontStep

theorem FrontStep.step (h : g.FrontStep u v) : g.Step u v := by
  cases h with
  | expand hp after => exact Step.expand hp [] after

theorem FrontDerives.derives (h : g.FrontDerives u v) : g.Derives u v :=
  Relation.ReflTransGen.mono (fun _ _ hs => hs.step) _ _ h

theorem FrontStep.append_right (h : g.FrontStep u v) (l : List Symbol) :
    g.FrontStep (u ++ l) (v ++ l) := by
  cases h with
  | expand hp after =>
    rw [List.append_assoc]
    exact FrontStep.expand hp (after ++ l)

theorem FrontDerives.append_right (h : g.FrontDerives u v) (l : List Symbol) :
    g.FrontDerives (u ++ l) (v ++ l) :=
  Relation.ReflTransGen.lift (· ++ l) (fun _ _ hs => hs.append_right l) _ _ h

/-- A step is one at the front or leaves the front as it is. -/
theorem Step.front_cases (h : g.Step u v) :
    g.FrontStep u v ∨ ∃ s u' v', u = s :: u' ∧ v = s :: v' ∧ g.Step u' v' := by
  cases h with
  | expand hp before after =>
    cases before with
    | nil => exact Or.inl (FrontStep.expand hp after)
    | cons s before => exact Or.inr ⟨s, _, _, rfl, rfl, Step.expand hp before after⟩

/-- A step behind the front can wait: what comes to the front after it
comes there without it. -/
theorem exists_frontDerives_of_step (h : g.Step u v) (hvw : g.FrontDerives v w) :
    ∃ w', g.FrontDerives u w' ∧ w'.head? = w.head? := by
  induction hvw using Relation.ReflTransGen.head_induction_on generalizing u with
  | refl =>
    obtain hfront | ⟨s, u', v', rfl, rfl, -⟩ := h.front_cases
    · exact ⟨w, Relation.ReflTransGen.single hfront, rfl⟩
    · exact ⟨s :: u', Relation.ReflTransGen.refl, rfl⟩
  | head hstep hrest ih =>
    obtain hfront | ⟨s, u', v', rfl, rfl, hbehind⟩ := h.front_cases
    · exact ⟨w, Relation.ReflTransGen.head hfront (Relation.ReflTransGen.head hstep hrest), rfl⟩
    · cases hstep with
      | @expand p hp after =>
        obtain ⟨w', hw', hhead⟩ := ih (hbehind.append_left (g.expansion p.rhs))
        exact ⟨w', Relation.ReflTransGen.head (FrontStep.expand hp u') hw', hhead⟩

/-- **What is derived comes to the front by steps at the front.** -/
theorem exists_frontDerives_of_derives (h : g.Derives u w) :
    ∃ w', g.FrontDerives u w' ∧ w'.head? = w.head? := by
  induction h using Relation.ReflTransGen.head_induction_on with
  | refl => exact ⟨w, Relation.ReflTransGen.refl, rfl⟩
  | head hstep _ ih =>
    obtain ⟨v', hv', hhead⟩ := ih
    obtain ⟨w', hw', hhead'⟩ := exists_frontDerives_of_step hstep hv'
    exact ⟨w', hw', hhead'.trans hhead⟩

/-! ## Steps that a lookahead guides -/

/-- **A lookahead lies ahead of a string**: the string derives one that
begins with it, or it is the end-marker and the string derives the empty
one. -/
def Ahead (g : Grammar) (u : List Symbol) (c : Terminal) : Prop :=
  (∃ rest, g.Derives u (.terminal c :: rest)) ∨ (c = g.endMarker ∧ g.Derives u [])

theorem Ahead.of_derives (h : g.Derives u v) (hv : g.Ahead v c) : g.Ahead u c := by
  obtain ⟨rest, hrest⟩ | ⟨hc, hnil⟩ := hv
  · exact Or.inl ⟨rest, h.trans hrest⟩
  · exact Or.inr ⟨hc, h.trans hnil⟩

/-- Something lies ahead of a string that derives terminals. -/
theorem exists_ahead {ts : List Terminal} (h : g.Derives u (ts.map .terminal)) :
    ∃ c, g.Ahead u c := by
  cases ts with
  | nil => exact ⟨g.endMarker, Or.inr ⟨rfl, h⟩⟩
  | cons c ts => exact ⟨c, Or.inl ⟨_, h⟩⟩

/-- **A guided step**: the first symbol is replaced, by a production that
the lookahead selects. -/
inductive GuidedStep (g : Grammar) (c : Terminal) : List Symbol → List Symbol → Prop
  | expand {p : Production} (hp : p ∈ g.productions) (hc : c ∈ g.select p)
    (after : List Symbol) :
    GuidedStep g c (.nonterminal p.lhs :: after) (g.expansion p.rhs ++ after)

/-- The symbols behind the front do not matter. -/
theorem GuidedStep.append_right (h : g.GuidedStep c u v) (l : List Symbol) :
    g.GuidedStep c (u ++ l) (v ++ l) := by
  cases h with
  | expand hp hc after =>
    rw [List.append_assoc]
    exact GuidedStep.expand hp hc (after ++ l)

/-- **Without conflicts a guided step has one outcome.** -/
theorem IsDeterministic.rightUnique_guidedStep (hd : g.IsDeterministic g.select) :
    Relator.RightUnique (g.GuidedStep c) := by
  intro u v w hv hw
  cases hv with
  | @expand p hp hc after =>
    generalize hu : Symbol.nonterminal p.lhs :: after = u at hw
    cases hw with
    | @expand q hq hcq after' =>
      obtain ⟨hlhs, rfl⟩ := List.cons.inj hu
      obtain ⟨m, hm⟩ := List.mem_iff_getElem?.mp hp
      obtain ⟨n, hn⟩ := List.mem_iff_getElem?.mp hq
      obtain rfl := hd m n p q hm hn (Symbol.nonterminal.inj hlhs) c hc hcq
      obtain rfl := Option.some.inj (hm.symm.trans hn)
      rfl

namespace WellFormed

/-- In a sentential form, what lies ahead of the expansion of a
nonterminal and the symbols behind it selects the production. -/
theorem mem_select_of_ahead (hg : g.WellFormed) (hp : p ∈ g.productions)
    (hform : g.Derives [.nonterminal g.start] (before ++ .nonterminal p.lhs :: after))
    (h : g.Ahead (g.expansion p.rhs ++ after) c) : c ∈ g.select p := by
  refine (hg.mem_select_iff_viable hp).mpr ?_
  obtain ⟨rest, hrest⟩ | ⟨rfl, hnil⟩ := h
  · exact Or.inl ⟨g.start, hg.start_declared, before, after, hform, rest, hrest⟩
  · exact Or.inr ⟨rfl, before, after, hform, hnil⟩

/-- **What lies ahead guides**: in a sentential form, a derivation at the
front is guided by every lookahead that lies ahead of what it comes to. -/
theorem guidedDerives_of_frontDerives (hg : g.WellFormed) (h : g.FrontDerives u w)
    (hform : g.Derives [.nonterminal g.start] (before ++ (u ++ after)))
    (hc : g.Ahead (w ++ after) c) : Relation.ReflTransGen (g.GuidedStep c) u w := by
  induction h using Relation.ReflTransGen.head_induction_on with
  | refl => exact Relation.ReflTransGen.refl
  | head hstep hrest ih =>
    cases hstep with
    | @expand p hp rest =>
      have hstep := ((Step.expand hp [] rest).append_right after).append_left before
      have hguided : c ∈ g.select p := by
        refine hg.mem_select_of_ahead hp hform (Ahead.of_derives ?_ hc)
        have h := (FrontDerives.derives hrest).append_right after
        rwa [List.append_assoc] at h
      exact Relation.ReflTransGen.head (GuidedStep.expand hp hguided rest)
        (ih (hform.tail hstep))

/-- **Where a lookahead lies ahead, guided derivations end**, if a guided
step has one outcome: one of them ends at the lookahead. -/
theorem acc_guidedStep (hg : g.WellFormed) (hd : g.IsDeterministic g.select)
    (hform : g.Derives [.nonterminal g.start] (before ++ u)) (hc : g.Ahead u c) :
    Acc (Function.swap (g.GuidedStep c)) u := by
  -- a string with the lookahead at its front, or an empty one, is at a standstill
  obtain ⟨w, hw, hahead, hstuck⟩ : ∃ w, g.FrontDerives u w ∧ g.Ahead (w ++ []) c
      ∧ ∀ v, ¬ g.GuidedStep c w v := by
    obtain ⟨rest, hrest⟩ | ⟨hend, hnil⟩ := hc
    · obtain ⟨w, hw, hhead⟩ := exists_frontDerives_of_derives hrest
      obtain ⟨rest', rfl⟩ := List.head?_eq_some_iff.mp hhead
      exact ⟨_, hw, Or.inl ⟨_, Derives.refl g _⟩, nofun⟩
    · obtain ⟨w, hw, hhead⟩ := exists_frontDerives_of_derives hnil
      obtain rfl := List.head?_eq_none_iff.mp hhead
      exact ⟨_, hw, Or.inr ⟨hend, Derives.refl g _⟩, nofun⟩
  have hform' : g.Derives [.nonterminal g.start] (before ++ (u ++ [])) := by
    rwa [List.append_nil]
  have hguided := hg.guidedDerives_of_frontDerives hw hform' hahead
  exact acc_of_reaches_stuck hd.rightUnique_guidedStep hguided hstuck

end WellFormed

/-! ## Left recursion -/

/-- **Left recursion**: in one step or more, a nonterminal derives a
string that begins with it. -/
def LeftRecursive (g : Grammar) (x : Nonterminal) : Prop :=
  ∃ rest, Relation.TransGen g.Step [.nonterminal x] (.nonterminal x :: rest)

/-- **Reduced grammars**: every nonterminal occurs in a sentential form and
derives a string of terminals. -/
structure Reduced (g : Grammar) : Prop where
  reachable : ∀ x : Nonterminal, x.index < g.nonterminals.length →
    ∃ before after, g.Derives [.nonterminal g.start] (before ++ .nonterminal x :: after)
  productive : ∀ x : Nonterminal, x.index < g.nonterminals.length →
    ∃ ts : List Terminal, g.Derives [.nonterminal x] (ts.map .terminal)

/-- In a reduced grammar every sentential form derives terminals. -/
theorem Reduced.exists_derives_terminals (hr : g.Reduced) (hu : ∀ s ∈ u, g.IsProper s) :
    ∃ ts : List Terminal, g.Derives u (ts.map .terminal) := by
  induction u with
  | nil => exact ⟨[], Derives.refl g []⟩
  | cons s u ih =>
    obtain ⟨ts, hts⟩ := ih (fun s' hs' => hu s' (List.mem_cons_of_mem s hs'))
    obtain ⟨ts', hts'⟩ : ∃ ts : List Terminal, g.Derives [s] (ts.map .terminal) := by
      cases s with
      | terminal t => exact ⟨[t], Derives.refl g _⟩
      | nonterminal x => exact hr.productive x (hu _ List.mem_cons_self).1
    refine ⟨ts' ++ ts, ?_⟩
    rw [List.map_append]
    exact hts'.append hts

/-- A left-recursive nonterminal comes back to the front by steps at the
front, of which the first one replaces it. -/
theorem LeftRecursive.exists_frontDerives (h : g.LeftRecursive x) :
    ∃ p ∈ g.productions, p.lhs = x ∧ ∃ rest,
      g.FrontDerives (g.expansion p.rhs) (.nonterminal x :: rest) := by
  obtain ⟨rest, h⟩ := h
  obtain ⟨u, hstep, hrest⟩ := Relation.TransGen.head'_iff.mp h
  generalize hx : [Symbol.nonterminal x] = s at hstep
  cases hstep with
  | @expand p hp before after =>
    obtain ⟨rfl, hlhs, rfl⟩ := singleton_eq_append_cons_iff.mp hx
    rw [List.nil_append, List.append_nil] at hrest
    obtain ⟨w, hw, hhead⟩ := exists_frontDerives_of_derives hrest
    obtain ⟨rest', rfl⟩ := List.head?_eq_some_iff.mp hhead
    exact ⟨p, hp, (Symbol.nonterminal.inj hlhs).symm, rest', hw⟩

/-- **Left recursion brings about conflicts** in a reduced grammar. -/
theorem WellFormed.not_isDeterministic_of_leftRecursive (hg : g.WellFormed) (hr : g.Reduced)
    (hx : g.LeftRecursive x) : ¬ g.IsDeterministic g.select := by
  intro hd
  obtain ⟨p, hp, rfl, rest, hround⟩ := hx.exists_frontDerives
  obtain ⟨before, after, hform⟩ := hr.reachable p.lhs (hg.lhs_lt_of_mem hp)
  -- having come round once, it stands in a form, of which some lookahead lies ahead
  have hround' := hround.derives.append_right after
  have hform' := derives_of_form hp hform hround'
  obtain ⟨ts, hts⟩ := hr.exists_derives_terminals (fun s hs =>
    hg.isProper_of_derives hform' (isProper_nonterminal hg.start_declared) s
      (List.mem_append_right before hs))
  obtain ⟨c, hc⟩ := exists_ahead hts
  have hselect : c ∈ g.select p := hg.mem_select_of_ahead hp hform (hc.of_derives hround')
  have hguided : Relation.ReflTransGen (g.GuidedStep c) (g.expansion p.rhs)
      (.nonterminal p.lhs :: rest) :=
    hg.guidedDerives_of_frontDerives hround
      (derives_of_form hp hform (Derives.refl g _)) hc
  -- so the lookahead guides it round again, whatever stands behind it
  have hagain : ∀ s, Relation.TransGen (g.GuidedStep c) (.nonterminal p.lhs :: s)
      (.nonterminal p.lhs :: rest ++ s) := fun s =>
    Relation.TransGen.head' (GuidedStep.expand hp hselect s)
      (Relation.ReflTransGen.lift (· ++ s) (fun _ _ hs => hs.append_right s) _ _ hguided)
  refine not_acc_of_recurring (C := fun u => ∃ s, u = .nonterminal p.lhs :: s) ?_ ⟨_, rfl⟩
    (hg.acc_guidedStep hd hform' hc)
  rintro _ ⟨s, rfl⟩
  exact ⟨_, ⟨rest ++ s, rfl⟩, hagain s⟩

/-- A left recursion over two nonterminals and behind a symbol that
vanishes: `S->ATa|b`, `T->S` and `A->NULL`. -/
def hiddenRecursion : Grammar where
  nonterminals := ["S", "T", "A"]
  terminals := ["a", "b", "NULL"]
  start := ⟨0⟩
  rules :=
    [⟨⟨0⟩, [[.nonterminal ⟨2⟩, .nonterminal ⟨1⟩, .terminal ⟨0⟩], [.terminal ⟨1⟩]]⟩,
      ⟨⟨1⟩, [[.nonterminal ⟨0⟩]]⟩, ⟨⟨2⟩, [[.terminal ⟨2⟩]]⟩]

theorem constructed_hiddenRecursion : hiddenRecursion.Constructed :=
  have h : (ofLists ["S", "T", "A"] ["a", "b"] ["S->ATa|b", "T->S", "A->NULL"] "S").toOption
      = some hiddenRecursion := by decide +kernel
  .ofLists (eq_ok_of_toOption h)

/-- The productions of the grammar, as derivations. -/
theorem derives_hiddenRecursion :
    hiddenRecursion.Derives [.nonterminal ⟨0⟩]
        [.nonterminal ⟨2⟩, .nonterminal ⟨1⟩, .terminal ⟨0⟩]
      ∧ hiddenRecursion.Derives [.nonterminal ⟨0⟩] [.terminal ⟨1⟩]
      ∧ hiddenRecursion.Derives [.nonterminal ⟨1⟩] [.nonterminal ⟨0⟩]
      ∧ hiddenRecursion.Derives [.nonterminal ⟨2⟩] [] :=
  ⟨Derives.of_mem (p := ⟨⟨0⟩, [.nonterminal ⟨2⟩, .nonterminal ⟨1⟩, .terminal ⟨0⟩]⟩) (by decide),
    Derives.of_mem (p := ⟨⟨0⟩, [.terminal ⟨1⟩]⟩) (by decide),
    Derives.of_mem (p := ⟨⟨1⟩, [.nonterminal ⟨0⟩]⟩) (by decide),
    Derives.of_mem (p := ⟨⟨2⟩, [.terminal ⟨2⟩]⟩) (by decide)⟩

theorem reduced_hiddenRecursion : hiddenRecursion.Reduced := by
  obtain ⟨hSA, hSb, hTS, hA⟩ := derives_hiddenRecursion
  constructor
  · rintro ⟨i⟩ hi
    match i, hi with
    | 0, _ => exact ⟨[], [], Derives.refl _ _⟩
    | 1, _ => exact ⟨[.nonterminal ⟨2⟩], [.terminal ⟨0⟩], hSA⟩
    | 2, _ => exact ⟨[], _, hSA⟩
  · rintro ⟨i⟩ hi
    match i, hi with
    | 0, _ => exact ⟨[⟨1⟩], hSb⟩
    | 1, _ => exact ⟨[⟨1⟩], hTS.trans hSb⟩
    | 2, _ => exact ⟨[], hA⟩

theorem leftRecursive_hiddenRecursion : hiddenRecursion.LeftRecursive ⟨0⟩ := by
  obtain ⟨-, -, hTS, hA⟩ := derives_hiddenRecursion
  have hstep : hiddenRecursion.Step [.nonterminal ⟨0⟩]
      [.nonterminal ⟨2⟩, .nonterminal ⟨1⟩, .terminal ⟨0⟩] :=
    Step.expand (p := ⟨⟨0⟩, [.nonterminal ⟨2⟩, .nonterminal ⟨1⟩, .terminal ⟨0⟩]⟩) (by decide) [] []
  exact ⟨[.terminal ⟨0⟩], Relation.TransGen.head' hstep
    ((hA.append hTS).append_right [.terminal ⟨0⟩])⟩

end Grammar

/-! ## The analysis -/

namespace LookaheadAnalysis

variable {g : Grammar}

/-- **No left-recursive grammar is LL(1).** In a constructed grammar all of
whose nonterminals occur in sentential forms and derive strings of
terminals, let some nonterminal derive, in one step or more, a string that
begins with it. Then the verdict is no, there is a first conflict, and in
place of a predictive parser there is an error that describes it. -/
theorem leftRecursive_refused (hg : g.Constructed) (hr : g.Reduced)
    (hx : ∃ x, g.LeftRecursive x) :
    let a := ofGrammar g
    a.isLL1 = false ∧ ∃ c, a.conflict? = some c
      ∧ PredictiveParser.ofAnalysis a = .error ⟨c, c.description g⟩ := by
  intro a
  have hwf := hg.wellFormed
  obtain ⟨x, hx⟩ := hx
  have hverdict : a.isLL1 = false := by
    rw [Bool.eq_false_iff]
    exact fun h => hwf.not_isDeterministic_of_leftRecursive hr hx ((isLL1_ofGrammar_iff hwf).mp h)
  refine ⟨hverdict, ?_⟩
  obtain ⟨c, hc⟩ : ∃ c, a.conflict? = some c :=
    Option.ne_none_iff_exists'.mp (fun hnone => by rw [isLL1, hnone] at hverdict; cases hverdict)
  refine ⟨c, hc, ?_⟩
  unfold PredictiveParser.ofAnalysis
  rw [hc]
  rfl

/-- `S->ATa` leads back to `S` when `A` has vanished and `T` has been
replaced, and the grammar has no predictive parser. -/
theorem leftRecursive_refused_hiddenRecursion :
    Grammar.hiddenRecursion.Constructed ∧ Grammar.hiddenRecursion.Reduced
      ∧ Grammar.hiddenRecursion.LeftRecursive ⟨0⟩
      ∧ (ofGrammar Grammar.hiddenRecursion).isLL1 = false
      ∧ ∃ c, (ofGrammar Grammar.hiddenRecursion).conflict? = some c :=
  have hx := Grammar.leftRecursive_hiddenRecursion
  have h := leftRecursive_refused Grammar.constructed_hiddenRecursion
    Grammar.reduced_hiddenRecursion ⟨_, hx⟩
  ⟨Grammar.constructed_hiddenRecursion, Grammar.reduced_hiddenRecursion, hx, h.1,
    h.2.imp fun _ hc => hc.1⟩

end LookaheadAnalysis

end GrammarAnalysis
