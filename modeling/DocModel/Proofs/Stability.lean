import DocModel.Proofs.Operations

/-!
# References stay what they are

What a symbol once has as its reference, it has from then on. That matters most where it is least
visible: while a declaration is built, whatever is asked for may come back to the declaration
itself, and must find the reference that the declaration is going to have. The trail of a session
holds the states in which something was asked for, the latest first, so it is where such a question
shows.

Two symbols have references with the same number exactly if they stand for the same, and references
with the same number are the same in all they say. Members of enumerations are left out throughout,
because an enumeration enters its members each time it comes to them.

## Theorems

* `Context.reference_of_find?`: A symbol with a reference is asked for in one step.
* `Session.IsAt.pairwise_trail`: References stay along the trail.
* `Session.references_keep_identity`: References stay what they are, in any run.
-/

namespace DocModel

/-- A symbol that has a reference is asked for in one step, and nothing is written. -/
theorem Context.reference_of_find? (ctx : Context) (n : Nat) (x : SymbolId) (state : State)
    (trail : Trail) (r : Reference) (h : state.registry.find? x = some r) :
    ctx.reference (n + 1) x state trail = .ok ((some r, state), state :: trail) := by
  -- The state goes on the trail, then the registry is looked at, and that is all.
  rw [Context.reference, Action.bind_apply, Action.note]
  change Calls.referenceStep _ ctx x state (state :: trail) = _
  rw [Calls.referenceStep, Action.entered?_bind, h]
  rfl

namespace Session

variable {p : Program} {s : Session} {m : Moment p}

/-- References stay along the trail and up to now. -/
theorem IsAt.pairwise_trail (h : s.IsAt m) :
    (s.state :: s.trail).Pairwise fun later earlier =>
      earlier.registry.Keeps p later.registry := by
  rw [← h.state, ← h.trail]
  exact List.pairwise_cons.2 ⟨m.kept, m.history⟩

/-- There is an account of every state that something was asked for in. -/
theorem IsAt.exists_account (h : s.IsAt m) (state : State) (hstate : state ∈ s.state :: s.trail) :
    ∃ a : Account p, a.state = state := by
  rw [← h.state, ← h.trail] at hstate
  rcases List.mem_cons.1 hstate with rfl | hstate
  · exact ⟨m.toAccount, rfl⟩
  · exact m.past state hstate

/-- Symbols had the same reference exactly if they stand for the same, at any time. -/
theorem IsAt.identity (h : s.IsAt m) (state : State) (hstate : state ∈ s.state :: s.trail) :
    Identity p state.registry := by
  rcases h.exists_account state hstate with ⟨a, rfl⟩
  exact a.identity

/-- In any run that comes to an end: the reference of a symbol stays what it is, also for questions
    in the middle of other work, and is the answer to all later questions; symbols share a number
    exactly if they stand for the same; and references that share a number are equal. Members of
    enumerations are left out. -/
theorem references_keep_identity (program : Program) (settings : Settings) (steps : Nat)
    (ops : List Operation) (s : Session)
    (hops : (start program settings steps).performAll ops = .ok s) :
    ((s.state :: s.trail).Pairwise fun later earlier =>
      ∀ x r, program.IsPlain x → earlier.registry.find? x = some r →
        later.registry.find? x = some r ∧
        ∀ (ctx : Context) (n : Nat) (trail : Trail),
          ctx.reference (n + 1) x later trail = .ok ((some r, later), later :: trail)) ∧
    (∀ state ∈ s.state :: s.trail, ∀ x y r r', program.IsPlain x → program.IsPlain y →
      state.registry.find? x = some r → state.registry.find? y = some r' →
      (r.id = r'.id ↔ program.resolveAlias x = program.resolveAlias y)) ∧
    ∀ r r', s.Occurs r → s.Occurs r' → r.kind ≠ .enumMember → r'.kind ≠ .enumMember →
      r.id = r'.id → r = r' := by
  rcases performAll_isAt (isAt_start program settings steps) ops hops with ⟨m, hat, _⟩
  refine ⟨hat.pairwise_trail.imp ?_, fun state hstate x y r r' hx hy hr hr' => ?_,
    fun r r' hr hr' hk hk' hid => ?_⟩
  · -- What is kept is what is answered, without another look at the symbol.
    intro later earlier hkeeps x r hx hr
    have hlater := hkeeps x r hx hr
    exact ⟨hlater, fun ctx n trail => ctx.reference_of_find? n x later trail r hlater⟩
  · exact (hat.identity state hstate).id_eq_iff x y r r' hx hy hr hr'
  · exact m.ledger.eq_of_id_eq r r' (hat.made_of_occurs hr) (hat.made_of_occurs hr') hk hk' hid

/-- In the sample, the class is asked for while it is built, before anything is attached. It had the
    reference then that it has in the end, which is also that of the other name for it. -/
theorem references_keep_identity_sample :
    ∃ s earlier r, (start .sample {} 30).performAll (Operation.sampleSetup ++ [.extract]) = .ok s ∧
      earlier ∈ s.trail ∧ earlier.notices = [] ∧ earlier.registry.find? ⟨2⟩ = some r ∧
      s.state.registry.find? ⟨2⟩ = some r ∧ s.state.registry.find? ⟨7⟩ = some r := by
  have hrun : ((start .sample {} 30).performAll (Operation.sampleSetup ++ [.extract])).toOption.any
      (fun s => s.trail.any (fun earlier => earlier.notices.isEmpty &&
        (earlier.registry.find? ⟨2⟩).any (·.kind == .classType)) &&
        (s.state.registry.find? ⟨7⟩).any (·.kind == .classType)) = true := by
    decide +kernel
  have hplain : ∀ i, i = 2 ∨ i = 7 → Program.sample.IsPlain ⟨i⟩ := by
    rintro i (rfl | rfl) <;> exact ⟨by decide +kernel, by decide +kernel⟩
  have halias : Program.sample.resolveAlias ⟨2⟩ = Program.sample.resolveAlias ⟨7⟩ := by
    decide +kernel
  rcases Outcome.of_any hrun with ⟨s, hs, hany⟩
  rw [Bool.and_eq_true, List.any_eq_true] at hany
  rcases hany with ⟨⟨earlier, hearlier, htold⟩, hother⟩
  rw [Bool.and_eq_true, List.isEmpty_iff] at htold
  rcases (Option.any_eq_true _ _).1 htold.2 with ⟨r, hr, hkind⟩
  rcases (Option.any_eq_true _ _).1 hother with ⟨r', hr', hkind'⟩
  rw [beq_iff_eq] at hkind hkind'
  rcases references_keep_identity .sample {} 30 _ s hs with ⟨hkeep, hshare, heq⟩
  have hnow := (List.pairwise_cons.1 hkeep).1 earlier hearlier ⟨2⟩ r (hplain 2 (Or.inl rfl)) hr
  have hid := (hshare s.state List.mem_cons_self ⟨2⟩ ⟨7⟩ r r' (hplain 2 (Or.inl rfl))
    (hplain 7 (Or.inr rfl)) hnow.1 hr').2 halias
  -- The two names have references with the same number, so they are equal.
  have hsame : r = r' := heq r r' (Or.inl ⟨⟨2⟩, r, hnow.1, r.mem_chain⟩)
    (Or.inl ⟨⟨7⟩, r', hr', r'.mem_chain⟩) (by rw [hkind]; decide) (by rw [hkind']; decide) hid
  exact ⟨s, earlier, r, hs, hearlier, htold.1, hr, hnow.1, hsame ▸ hr'⟩

end Session

end DocModel
