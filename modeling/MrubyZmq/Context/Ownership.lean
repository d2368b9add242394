import MrubyZmq.Context

/-!
# Who terminates a context

The own context of an interpreter should be terminated exactly once, other
contexts only when the host asks for it, and no context used after being
terminated by the bindings (`Owned`).

Whether the registered context is to be terminated when it is replaced, or in
the end, is told by `__foreigen_context__`, which only `mrb_zmq_set_context`
changes: `mrb_zmq_ctx_shutdown_close_and_term` leaves a terminated context
registered. A run goes well exactly if that function is only called for the
context of a host, and a terminated context is not used in the end
(`owned_iff_along`).
-/

namespace MrubyZmq

/-- A call on a context, rather than on a socket. -/
def Call.onCtx : Call → Bool
  | ctxGet _ | ctxSet _ | socket _ _ | ctxShutdown _ | ctxTerm _ _ => true
  | use _ | close _ _ => false

/-- The context is terminated by the call. -/
def Call.terminates (c : ℕ) : Call → Bool
  | ctxTerm c' _ => c' = c
  | _ => false

/-- What may be done to contexts after the calls `past`. -/
def CtxAllowed (own : ℕ) (past : List Call) : Call → Prop
  | .ctxGet c | .ctxSet c | .socket c _ | .ctxShutdown c => ¬Terminated past c
  | .ctxTerm c via => ¬Terminated past c ∧ (c = own ∨ via = .shutdown)
  | .use _ | .close _ _ => True

/-- In the end: contexts are used and terminated as they should be, and the own
    context has been terminated once. -/
def Owned (own : ℕ) (calls : List Call) : Prop :=
  Lawful (CtxAllowed own) [] calls ∧ calls.countP (Call.terminates own) = 1

/-! ## Calls on contexts -/

@[simp] theorem terminated_nil {c : ℕ} : ¬Terminated [] c := fun ⟨_, h⟩ => List.not_mem_nil h

@[simp] theorem terminated_cons {a : Call} {l : List Call} {c : ℕ} :
    Terminated (a :: l) c ↔ a.terminates c = true ∨ Terminated l c := by
  simp only [Terminated, List.mem_cons, exists_or]
  refine or_congr_left ?_
  cases a <;> simp [Call.terminates, eq_comm]

@[simp] theorem terminated_append {past l : List Call} {c : ℕ} :
    Terminated (past ++ l) c ↔ Terminated past c ∨ Terminated l c := by
  simp only [Terminated, List.mem_append, exists_or]

theorem terminated_filter {calls : List Call} {c : ℕ} :
    Terminated (calls.filter Call.onCtx) c ↔ Terminated calls c := by
  simp [Terminated, Call.onCtx]

theorem terminated_iff {c : ℕ} {l : List Call} :
    Terminated l c ↔ 0 < l.countP (Call.terminates c) := by
  rw [List.countP_pos_iff]
  constructor
  · rintro ⟨via, h⟩
    exact ⟨_, h, by simp [Call.terminates]⟩
  · rintro ⟨a, ha, h⟩
    cases a <;> simp [Call.terminates] at h
    exact ⟨_, h ▸ ha⟩

/-- A context is terminated at most once. -/
theorem countP_le_one {own c : ℕ} {l : List Call} (h : Lawful (CtxAllowed own) [] l) :
    l.countP (Call.terminates c) ≤ 1 := by
  refine h.induction (P := fun l => l.countP (Call.terminates c) ≤ 1) (Nat.zero_le 1)
    fun past a hpast ha => ?_
  rw [List.countP_append, List.countP_singleton]
  split
  · have hnot : ¬Terminated past c := by
      cases a <;> simp_all [Call.terminates, CtxAllowed]
    have hzero : past.countP (Call.terminates c) = 0 :=
      Nat.eq_zero_of_not_pos fun h => hnot (terminated_iff.2 h)
    omega
  · exact hpast

/-! ## Steps -/

namespace Interp

variable {env : Env} {s s' : Interp} {op : Op}

/-- The calls on contexts so far. -/
def ctxCalls (s : Interp) : List Call := s.calls.filter Call.onCtx

/-- Two states with the same registered context, after the same calls on
    contexts but for the new ones `l`. -/
structure CtxStep (s s' : Interp) (l : List Call) : Prop where
  ctx : s'.ctx = s.ctx
  foreigen : s'.foreigen = s.foreigen
  ctxCalls : s'.ctxCalls = s.ctxCalls ++ l

theorem terminated_ctxCalls {c : ℕ} : Terminated s.ctxCalls c ↔ Terminated s.calls c :=
  terminated_filter

/-- The calls on contexts are all that matters. -/
theorem lawful_ctxCalls {own : ℕ} :
    Lawful (CtxAllowed own) [] s.ctxCalls ↔ Lawful (CtxAllowed own) [] s.calls := by
  refine @lawful_filter _ _ [] _ _ fun past a => ?_
  cases a <;> simp [CtxAllowed, Call.onCtx, terminated_filter]

theorem ctxCalls_call {l : List Call} :
    (s.call l).ctxCalls = s.ctxCalls ++ l.filter Call.onCtx := List.filter_append ..

theorem filter_lingerClose {ps : List ℕ} {ok : ℕ → Bool} :
    (ps.flatMap (lingerClose ok)).filter Call.onCtx = [] := by
  rw [List.filter_flatMap, List.flatMap_eq_nil_iff]
  exact fun p _ => rfl

namespace CtxStep

theorem refl : s.CtxStep s [] := ⟨rfl, rfl, (List.append_nil _).symm⟩

theorem call {l : List Call} : s.CtxStep (s.call l) (l.filter Call.onCtx) :=
  ⟨rfl, rfl, ctxCalls_call⟩

theorem openSocket {o : ℕ} {opened : Bool} :
    ∃ p, s.CtxStep (s.openSocket o opened) [.socket s.ctx p] := by
  cases opened with
  | false => exact ⟨none, call⟩
  | true => exact ⟨some s.nextSocket, rfl, rfl, ctxCalls_call⟩

theorem closeData {o p : ℕ} {ok : Bool} : s.CtxStep (s.closeData o p ok) [] := by
  rw [Interp.closeData]
  cases ok with
  | false => exact call
  | true => exact ⟨rfl, rfl, ctxCalls_call⟩

theorem collect {dead : List ℕ} {ok : ℕ → Bool} : s.CtxStep (s.collect dead ok) [] :=
  ⟨rfl, rfl, ctxCalls_call.trans (by rw [filter_lingerClose])⟩

theorem closeAll {ok : ℕ → Bool} : s.CtxStep (s.closeAll ok) [] :=
  ⟨rfl, rfl, ctxCalls_call.trans (by rw [filter_lingerClose])⟩

theorem trans {s'' : Interp} {l m : List Call} (h : s.CtxStep s' l) (h' : s'.CtxStep s'' m) :
    s.CtxStep s'' (l ++ m) :=
  ⟨h'.ctx.trans h.ctx, h'.foreigen.trans h.foreigen,
    by rw [h'.ctxCalls, h.ctxCalls, List.append_assoc]⟩

theorem ctxShutdownCloseAndTerm {via : Via} {dead : List ℕ} {ok : ℕ → Bool} :
    s.CtxStep (s.ctxShutdownCloseAndTerm via dead ok)
      [.ctxShutdown s.ctx, .ctxTerm s.ctx via] :=
  ((call.trans collect).trans closeAll).trans call

theorem closeUnlessForeigen {via : Via} {dead : List ℕ} {ok : ℕ → Bool} :
    s.CtxStep (s.closeUnlessForeigen via dead ok)
      (if s.foreigen then [] else [.ctxShutdown s.ctx, .ctxTerm s.ctx via]) := by
  rw [Interp.closeUnlessForeigen]
  cases s.foreigen with
  | false => exact ctxShutdownCloseAndTerm
  | true => exact refl

/-- A logger opens a socket, if there is an endpoint. -/
theorem newLogger {opened : Bool} : ∃ p, s.CtxStep (newLogger env s opened)
    (if env.endpoint then [.socket s.ctx p] else []) := by
  rw [Interp.newLogger]
  cases env.endpoint with
  | false => exact ⟨none, refl⟩
  | true =>
    obtain ⟨p, hp⟩ := @openSocket s.allocate s.heap.next opened
    refine ⟨p, ?_⟩
    cases opened with
    | false => exact ⟨hp.ctx, hp.foreigen, hp.ctxCalls⟩
    | true => exact ⟨hp.ctx, hp.foreigen, (hp.trans (@call _ [.use s.nextSocket])).ctxCalls⟩

theorem closeDone {o : ℕ} {ok : Bool} (h : s.close o ok = some s') : s.CtxStep s' [] := by
  obtain ⟨obj, -, rfl⟩ := Option.map_eq_some_iff.1 h
  cases obj.data with
  | none => exact refl
  | some p => exact closeData

theorem closeMarkDone {o : ℕ} {ok : Bool} (h : s.closeMark o ok = some s') : s.CtxStep s' [] := by
  obtain ⟨obj, -, rfl⟩ := Option.map_eq_some_iff.1 h
  cases obj.data with
  | none => exact refl
  | some p => exact call.trans closeData

theorem fetch {os : List ℕ} : s.CtxStep (s.fetch os) [] := by
  rw [Interp.fetch]
  cases s.dataPtrs os with
  | none => exact refl
  | some args => exact ⟨rfl, rfl, (List.append_nil _).symm⟩

theorem finishDone {raises : Bool} (h : s.finish raises = some s') : s.CtxStep s' [] := by
  rw [Interp.finish] at h
  split at h
  · simp at h
  · obtain rfl := Option.some.inj h
    split
    · exact ⟨rfl, rfl, (List.append_nil _).symm⟩
    · refine ⟨rfl, rfl, ctxCalls_call.trans ?_⟩
      rw [List.filter_map, show Call.onCtx ∘ (fun a : ℕ × ℕ => .use a.2) = fun _ => false from rfl]
      simp

end CtxStep

/-- The operation uses the registered context in a way that goes well: the host
    only has the context of a host terminated, a terminated context is not used,
    and the own one not registered again where a logger would use it. -/
def Usable (env : Env) (s : Interp) : Op → Prop
  | .init o type _ => ∀ obj, s.heap.find o = some obj → obj.data = none → FitsInt type →
      ¬Terminated s.calls s.ctx
  | .ctxGet | .ctxSet => ¬Terminated s.calls s.ctx
  | .shutdown _ _ => s.foreigen = true ∧ ¬Terminated s.calls s.ctx
  | .setContext c _ _ _ => ¬Terminated s.calls c ∧
      ¬(env.endpoint = true ∧ s.foreigen = false ∧ c = env.own)
  | _ => True

/-- What an operation may do to the registered context, and when it goes well. -/
inductive OnCtx (env : Env) (s s' : Interp) : Prop → Prop
  | unused (h : s.CtxStep s' []) : OnCtx env s s' True
  | used {a : Call} (ha : ∀ past, CtxAllowed env.own past a ↔ ¬Terminated past s.ctx)
      (hterm : ∀ c, ¬Terminated [a] c) (h : s.CtxStep s' [a]) :
      OnCtx env s s' (¬Terminated s.calls s.ctx)
  | shutdown (h : s.CtxStep s' [.ctxShutdown s.ctx, .ctxTerm s.ctx .shutdown]) :
      OnCtx env s s' (s.foreigen = true ∧ ¬Terminated s.calls s.ctx)
  | refused {c : ℕ} (hc : ¬s.Live env c) (h : s.CtxStep s' [.ctxGet c]) :
      OnCtx env s s' (¬Terminated s.calls c)
  | registered {c : ℕ} (p : Option ℕ) (hc : s.Live env c) (hctx : s'.ctx = c)
      (hforeigen : s'.foreigen = true)
      (h : s'.ctxCalls = s.ctxCalls ++ (.ctxGet c :: (if s.foreigen then [] else
        [.ctxShutdown s.ctx, .ctxTerm s.ctx .setContext]) ++
        if env.endpoint then [.socket c p] else [])) :
      OnCtx env s s' (¬(env.endpoint = true ∧ s.foreigen = false ∧ c = env.own))

theorem onCtx_init {o : ℕ} {type : ℤ} {opened : Bool}
    (h : s.socketInit o type opened = some s') :
    ∃ P, OnCtx env s s' P ∧ (Usable env s (.init o type opened) ↔ P) := by
  obtain ⟨obj, hobj, rfl⟩ := Option.map_eq_some_iff.1 h
  split
  · refine ⟨True, .unused CtxStep.refl, iff_of_true (fun obj' hobj' hdata => ?_) trivial⟩
    obtain rfl := Option.some.inj (hobj.symm.trans hobj')
    simp_all
  · split
    · rename_i hdata htype
      obtain ⟨p, hp⟩ := @CtxStep.openSocket s o opened
      refine ⟨_, .used (fun _ => Iff.rfl) (by simp [Terminated]) hp,
        fun h => h obj hobj (by simpa using hdata) htype, fun h _ _ _ _ => h⟩
    · exact ⟨True, .unused CtxStep.refl, iff_of_true (fun _ _ _ h => absurd h ‹_›) trivial⟩

theorem onCtx_setContext {c : ℕ} {dead : List ℕ} {ok : ℕ → Bool} {opened : Bool} :
    ∃ P, OnCtx env s (s.setContext env c dead ok opened) P ∧
      (Usable env s (.setContext c dead ok opened) ↔ P) := by
  by_cases hlive : s.Live env c
  · rw [setContext, if_pos hlive]
    have hclose := (@CtxStep.call s [.ctxGet c]).trans
      (@CtxStep.closeUnlessForeigen _ .setContext dead ok)
    obtain ⟨p, hp⟩ := @CtxStep.newLogger env { (s.call [.ctxGet c]).closeUnlessForeigen .setContext
      dead ok with ctx := c, foreigen := true } opened
    refine ⟨_, .registered p hlive hp.ctx hp.foreigen ?_, fun h => h.2, fun h => ⟨hlive.2, h⟩⟩
    rw [hp.ctxCalls, ← List.append_assoc]
    exact congrArg (· ++ _) hclose.ctxCalls
  · rw [setContext, if_neg hlive]
    refine ⟨_, .refused hlive CtxStep.call, fun h => h.1, fun h => ⟨h, ?_⟩⟩
    rintro ⟨-, -, rfl⟩
    exact hlive ⟨Or.inl rfl, h⟩

/-- What the operations do to the registered context. -/
theorem step_onCtx (h : (interp env).step s op = some s') :
    ∃ P, OnCtx env s s' P ∧ (Usable env s op ↔ P) := by
  cases op with
  | allocate =>
    obtain rfl := Option.some.inj h
    exact ⟨True, .unused ⟨rfl, rfl, (List.append_nil _).symm⟩, Iff.rfl⟩
  | dup o =>
    obtain ⟨_, -, rfl⟩ := Option.map_eq_some_iff.1 h
    exact ⟨True, .unused ⟨rfl, rfl, (List.append_nil _).symm⟩, Iff.rfl⟩
  | init o type opened => exact onCtx_init h
  | close o ok => exact ⟨True, .unused (CtxStep.closeDone h), Iff.rfl⟩
  | closeMark o ok => exact ⟨True, .unused (CtxStep.closeMarkDone h), Iff.rfl⟩
  | collect dead ok =>
    obtain ⟨-, hs⟩ := Option.ite_none_right_eq_some.1 h
    obtain rfl := Option.some.inj hs
    exact ⟨True, .unused CtxStep.collect, Iff.rfl⟩
  | fetch os =>
    obtain rfl := Option.some.inj h
    exact ⟨True, .unused CtxStep.fetch, Iff.rfl⟩
  | finish raises => exact ⟨True, .unused (CtxStep.finishDone h), Iff.rfl⟩
  | ctxGet =>
    obtain rfl := Option.some.inj h
    exact ⟨_, .used (fun _ => Iff.rfl) (by simp [Terminated]) (@CtxStep.call s [.ctxGet s.ctx]),
      Iff.rfl⟩
  | ctxSet =>
    obtain rfl := Option.some.inj h
    exact ⟨_, .used (fun _ => Iff.rfl) (by simp [Terminated]) (@CtxStep.call s [.ctxSet s.ctx]),
      Iff.rfl⟩
  | shutdown dead ok =>
    obtain ⟨-, hs⟩ := Option.ite_none_right_eq_some.1 h
    obtain rfl := Option.some.inj hs
    exact ⟨_, .shutdown CtxStep.ctxShutdownCloseAndTerm, Iff.rfl⟩
  | setContext c dead ok opened =>
    obtain ⟨-, hs⟩ := Option.ite_none_right_eq_some.1 h
    obtain rfl := Option.some.inj hs
    exact onCtx_setContext

/-! ## Runs -/

/-- All went well so far: the own context is registered and live, or it has been
    replaced and terminated. -/
structure InOrder (env : Env) (s : Interp) : Prop where
  lawful : Lawful (CtxAllowed env.own) [] s.ctxCalls
  own : s.foreigen = false → s.ctx = env.own ∧ ¬Terminated s.ctxCalls env.own
  foreign : s.foreigen = true → Terminated s.ctxCalls env.own

/-- Something went wrong, or the own context is registered, and to be terminated
    again. -/
def Doomed (env : Env) (s : Interp) : Prop :=
  ¬Lawful (CtxAllowed env.own) [] s.ctxCalls ∨
    s.foreigen = false ∧ s.ctx = env.own ∧ Terminated s.ctxCalls env.own

variable {P : Prop}

theorem InOrder.step (hs : s.InOrder env) (h : OnCtx env s s' P) (hP : P) : s'.InOrder env := by
  obtain ⟨hlawful, hown, hforeign⟩ := hs
  cases h with
  | unused h =>
    obtain ⟨hctx, hf, hcalls⟩ := h
    rw [List.append_nil] at hcalls
    exact ⟨hcalls ▸ hlawful, by rwa [hctx, hf, hcalls], by rwa [hf, hcalls]⟩
  | used ha hterm h =>
    obtain ⟨hctx, hf, hcalls⟩ := h
    rw [← terminated_ctxCalls] at hP
    refine ⟨?_, ?_, ?_⟩
    · rw [hcalls, lawful_append]
      exact ⟨hlawful, (ha _).2 hP, trivial⟩
    · rw [hctx, hf, hcalls, terminated_append, or_iff_left (hterm _)]
      exact hown
    · rw [hf, hcalls]
      exact fun h => terminated_append.2 (Or.inl (hforeign h))
  | shutdown h =>
    obtain ⟨hctx, hf, hcalls⟩ := h
    rw [← terminated_ctxCalls] at hP
    refine ⟨?_, ?_, ?_⟩
    · rw [hcalls, lawful_append]
      exact ⟨hlawful, by simpa [CtxAllowed, Call.terminates] using hP.2⟩
    · rw [hf, hP.1]
      exact fun h => absurd h (by decide)
    · rw [hf, hcalls]
      exact fun h => terminated_append.2 (Or.inl (hforeign h))
  | refused hc h =>
    obtain ⟨hctx, hf, hcalls⟩ := h
    rw [← terminated_ctxCalls] at hP
    refine ⟨?_, ?_, ?_⟩
    · rw [hcalls, lawful_append]
      exact ⟨hlawful, by simpa [CtxAllowed] using hP⟩
    · rw [hctx, hf, hcalls]
      simpa [Call.terminates] using hown
    · rw [hf, hcalls]
      exact fun h => terminated_append.2 (Or.inl (hforeign h))
  | @registered c p hc hctx hf h =>
    have hlive : ¬Terminated s.ctxCalls c := terminated_ctxCalls.not.2 hc.2
    refine ⟨?_, fun h => absurd (hf.symm.trans h) (by decide), fun _ => ?_⟩
    · rw [h, lawful_append]
      refine ⟨hlawful, ?_⟩
      cases hforeigen : s.foreigen with
      | true => cases env.endpoint <;> simp [CtxAllowed, Call.terminates, hlive]
      | false =>
        obtain ⟨hctx', hterm⟩ := hown hforeigen
        cases hend : env.endpoint with
        | false => simp [CtxAllowed, Call.terminates, hlive, hctx', hterm]
        | true =>
          have hne : env.own ≠ c := fun h => hP ⟨hend, hforeigen, h.symm⟩
          simp [CtxAllowed, Call.terminates, hlive, hctx', hterm, hne]
    · rw [h]
      cases hforeigen : s.foreigen with
      | true => exact terminated_append.2 (Or.inl (hforeign hforeigen))
      | false => simp [Call.terminates, (hown hforeigen).1]

/-- An operation which does not go well. -/
theorem InOrder.doomed (hs : s.InOrder env) (h : OnCtx env s s' P) (hP : ¬P) :
    s'.Doomed env := by
  obtain ⟨hlawful, hown, hforeign⟩ := hs
  cases h with
  | unused h => exact absurd trivial hP
  | used ha hterm h =>
    rw [← terminated_ctxCalls] at hP
    refine Or.inl fun hl => ?_
    rw [h.ctxCalls, lawful_append] at hl
    exact hP ((ha _).1 hl.2.1)
  | shutdown h =>
    rw [← terminated_ctxCalls] at hP
    by_cases hterm : Terminated s.ctxCalls s.ctx
    · refine Or.inl fun hl => ?_
      rw [h.ctxCalls, lawful_append] at hl
      exact hl.2.1 hterm
    · -- The own context is still registered, and terminated in the end.
      have hforeigen : s.foreigen = false := Bool.eq_false_iff.2 fun hf => hP ⟨hf, hterm⟩
      refine Or.inr ⟨h.foreigen.trans hforeigen, h.ctx.trans (hown hforeigen).1, ?_⟩
      rw [h.ctxCalls]
      simp [Call.terminates, (hown hforeigen).1]
  | refused hc h =>
    rw [← terminated_ctxCalls] at hP
    refine Or.inl fun hl => ?_
    rw [h.ctxCalls, lawful_append] at hl
    exact hP hl.2.1
  | @registered c p hc hctx hf h =>
    obtain ⟨hend, hforeigen, rfl⟩ := not_not.1 hP
    refine Or.inl fun hl => ?_
    -- The logger opens its socket in the context just terminated.
    rw [h, lawful_append, hend, hforeigen, (hown hforeigen).1] at hl
    exact hl.2.2.2.2.1 (by simp [Call.terminates])

theorem OnCtx.ctxCalls (h : OnCtx env s s' P) : ∃ l, s'.ctxCalls = s.ctxCalls ++ l := by
  cases h with
  | unused h => exact ⟨_, h.ctxCalls⟩
  | used ha hterm h => exact ⟨_, h.ctxCalls⟩
  | shutdown h => exact ⟨_, h.ctxCalls⟩
  | refused hc h => exact ⟨_, h.ctxCalls⟩
  | registered p hc hctx hf h => exact ⟨_, h⟩

/-- What went wrong stays wrong. -/
theorem Doomed.step (hs : s.Doomed env) (h : OnCtx env s s' P) : s'.Doomed env := by
  obtain ⟨l, hl⟩ := h.ctxCalls
  rcases hs with hlawful | ⟨hforeigen, hctx, hterm⟩
  · exact Or.inl fun h => hlawful (lawful_append.1 (hl ▸ h)).1
  · have hterm' : Terminated s'.ctxCalls env.own := hl ▸ terminated_append.2 (Or.inl hterm)
    cases h with
    | unused h => exact Or.inr ⟨h.foreigen.trans hforeigen, h.ctx.trans hctx, hterm'⟩
    | used ha hterm h => exact Or.inr ⟨h.foreigen.trans hforeigen, h.ctx.trans hctx, hterm'⟩
    | shutdown h => exact Or.inr ⟨h.foreigen.trans hforeigen, h.ctx.trans hctx, hterm'⟩
    | refused hc h => exact Or.inr ⟨h.foreigen.trans hforeigen, h.ctx.trans hctx, hterm'⟩
    | registered p hc hctx' hf h =>
      -- Replacing the own context terminates it again.
      refine Or.inl fun hl => ?_
      rw [h, lawful_append, hforeigen, hctx] at hl
      exact hl.2.2.1 (by simp [Call.terminates, hterm])

theorem gemFinal_ctxStep (dead : List ℕ) (ok : ℕ → Bool) : s.CtxStep (s.gemFinal dead ok)
    (if s.foreigen then [] else [.ctxShutdown s.ctx, .ctxTerm s.ctx .gemFinal]) :=
  CtxStep.closeUnlessForeigen

/-- What remains in the end is the own context, if it is still registered. -/
theorem InOrder.owned (hs : s.InOrder env) (dead : List ℕ) (ok : ℕ → Bool) :
    Owned env.own (s.gemFinal dead ok).calls := by
  have hcalls := (@gemFinal_ctxStep s dead ok).ctxCalls
  have hlawful : Lawful (CtxAllowed env.own) [] (s.gemFinal dead ok).calls := by
    rw [← lawful_ctxCalls, hcalls, lawful_append]
    refine ⟨hs.lawful, ?_⟩
    cases hforeigen : s.foreigen with
    | true => trivial
    | false => simpa [CtxAllowed, Call.terminates, (hs.own hforeigen).1] using (hs.own hforeigen).2
  have hterm : Terminated (s.gemFinal dead ok).calls env.own := by
    rw [← terminated_ctxCalls, hcalls, terminated_append]
    cases hforeigen : s.foreigen with
    | true => exact Or.inl (hs.foreign hforeigen)
    | false => simp [Call.terminates, (hs.own hforeigen).1]
  exact ⟨hlawful, Nat.le_antisymm (countP_le_one hlawful) (terminated_iff.1 hterm)⟩

theorem Doomed.not_owned (hs : s.Doomed env) (dead : List ℕ) (ok : ℕ → Bool) :
    ¬Owned env.own (s.gemFinal dead ok).calls := by
  rintro ⟨hlawful, -⟩
  rw [← lawful_ctxCalls, (gemFinal_ctxStep dead ok).ctxCalls, lawful_append] at hlawful
  rcases hs with hs | ⟨hforeigen, hctx, hterm⟩
  · exact hs hlawful.1
  · rw [hforeigen, hctx] at hlawful
    exact hlawful.2.1 hterm

theorem inOrder_gemInit (env : Env) (opened : Bool) : (gemInit env opened).InOrder env := by
  obtain ⟨p, hp⟩ := @CtxStep.newLogger env
    { ctx := env.own, calls := List.replicate env.options (.ctxSet env.own) } opened
  have hcalls : ∀ a ∈ (gemInit env opened).ctxCalls,
      a = .ctxSet env.own ∨ a = .socket env.own p := by
    intro a ha
    rw [gemInit, hp.ctxCalls, List.mem_append] at ha
    rcases ha with ha | ha
    · exact Or.inl (List.eq_of_mem_replicate (List.mem_filter.1 ha).1)
    · split at ha
      · exact Or.inr (List.mem_singleton.1 ha)
      · exact absurd ha List.not_mem_nil
  have hterm : ∀ l, (∀ a ∈ l, a ∈ (gemInit env opened).ctxCalls) → ¬Terminated l env.own := by
    rintro l hl ⟨via, hvia⟩
    rcases hcalls _ (hl _ hvia) with h | h <;> exact Call.noConfusion h
  have hforeigen : (gemInit env opened).foreigen = false := hp.foreigen
  refine ⟨lawful_of_forall fun k a m hl => ?_, fun _ => ⟨hp.ctx, hterm _ fun _ ha => ha⟩, ?_⟩
  · have hk := hterm k fun b hb => hl ▸ List.mem_append_left _ hb
    rcases hcalls a (hl ▸ List.mem_append_right k List.mem_cons_self) with rfl | rfl <;> exact hk
  · rw [hforeigen]
    exact fun h => absurd h (by decide)

end Interp

open Interp

variable {env : Env} {s s' : Interp}

theorem not_owned_of_doomed {ops : List Op} (hs : s.Doomed env)
    (h : (interp env).run s ops = some s') (dead : List ℕ) (ok : ℕ → Bool) :
    ¬Owned env.own (s'.gemFinal dead ok).calls := by
  induction ops generalizing s with
  | nil =>
    obtain rfl := Option.some.inj h
    exact hs.not_owned dead ok
  | cons op ops ih =>
    obtain ⟨t, ht, hrun⟩ := Option.bind_eq_some_iff.1 h
    obtain ⟨P, hP, -⟩ := step_onCtx ht
    exact ih (hs.step hP) hrun

theorem owned_iff_of_inOrder {ops : List Op} (hs : s.InOrder env)
    (h : (interp env).run s ops = some s') (dead : List ℕ) (ok : ℕ → Bool) :
    Owned env.own (s'.gemFinal dead ok).calls ↔ (interp env).Along (Usable env) s ops := by
  induction ops generalizing s with
  | nil =>
    obtain rfl := Option.some.inj h
    exact iff_of_true (hs.owned dead ok) trivial
  | cons op ops ih =>
    obtain ⟨t, ht, hrun⟩ := Option.bind_eq_some_iff.1 h
    obtain ⟨P, hP, husable⟩ := step_onCtx ht
    rw [Machine.along_cons ht, husable]
    by_cases hok : P
    · rw [ih (hs.step hP hok) hrun, and_iff_right hok]
    · exact iff_of_false (not_owned_of_doomed (hs.doomed hP hok) hrun dead ok) fun h => hok h.1

/-- A run from `mrb_mruby_zmq_gem_init` to `mrb_mruby_zmq_gem_final` uses and
    terminates contexts as it should exactly if each operation in between goes
    well. -/
theorem owned_iff_along {opened : Bool} {ops : List Op}
    (h : (interp env).run (gemInit env opened) ops = some s) (dead : List ℕ) (ok : ℕ → Bool) :
    Owned env.own (s.gemFinal dead ok).calls ↔
      (interp env).Along (Usable env) (gemInit env opened) ops :=
  owned_iff_of_inOrder (inOrder_gemInit env opened) h dead ok

/-- The context of a host, registered and terminated by it. -/
theorem owned_swap :
    let env : Env := { host := (· == 1) }
    let ops : List Op := [.setContext 1 [] (fun _ => true) true, .shutdown [] fun _ => true]
    ∃ s, (interp env).run (gemInit env true) ops = some s ∧
      Owned env.own (s.gemFinal [] fun _ => true).calls := by
  intro env ops
  refine ⟨_, rfl, (@owned_iff_along env _ true ops rfl [] fun _ => true).2 ?_⟩
  exact (Machine.along_cons rfl).2 ⟨⟨by decide, by decide⟩,
    (Machine.along_cons rfl).2 ⟨⟨rfl, by decide⟩, trivial⟩⟩

/-- The own context, shut down by the host, is terminated again in the end. -/
theorem shutdown_terminated_twice :
    (((interp {}).run (gemInit {} true) [.shutdown [] fun _ => true]).map
      (·.gemFinal [] fun _ => true)).map (·.calls) =
        some [.ctxShutdown 0, .ctxTerm 0 .shutdown, .ctxShutdown 0, .ctxTerm 0 .gemFinal] ∧
    ¬∀ env opened ops s dead ok, (interp env).run (gemInit env opened) ops = some s →
      Owned env.own (s.gemFinal dead ok).calls := by
  refine ⟨rfl, fun h => ?_⟩
  have hcount := (h {} true [.shutdown [] fun _ => true] _ [] (fun _ => true) rfl).2
  exact absurd hcount (by decide)

end MrubyZmq
