import Reshape.Proofs.Chain.History
import Reshape.Proofs.Evaluator.Depth

/-!
# Pipelines of tokens as chains

A pipeline of tokens stops at the first token that fails; a chain that makes the same calls goes on
with the value it had. Up to that token both carry the same value, and what the chain remembers is
the cause of the failure with which the pipeline stops.
-/

namespace Reshape

namespace Token

/-- The call of the filter that a token names, with the texts that follow its name. -/
def action (token : Token) : Chain.Action :=
  .call token.name (token.args.map Arg.ofText)

/-- How the failure of a token is reported by a mapping. -/
def report (registry : Registry) (token : Token) (cause : FilterError) : MappingError :=
  if registry.contains token.name then .filter token.name cause else .unknownFilter token.name

theorem report_of_get?_eq_none {registry : Registry} (token : Token)
    (hget : registry.get? token.name = none) (cause : FilterError) :
    token.report registry cause = .unknownFilter token.name := by
  rw [report, Registry.contains, hget]
  rfl

theorem report_of_get?_eq_some {registry : Registry} (token : Token) {filter : Filter}
    (hget : registry.get? token.name = some filter) (cause : FilterError) :
    token.report registry cause = .filter token.name cause := by
  rw [report, Registry.contains, hget]
  rfl

end Token

/-- The chain that starts from the source itself and calls the tokens one after the other. -/
def Chain.ofTokens (registry : Registry) (source : Value) (tokens : List Token) : Chain :=
  (start registry source).run (.method (.set source) :: tokens.map Token.action)

theorem Registry.standard_get?_set :
    standard.get? "set" = some ⟨"set", .between 0 1, Filter.set, .value⟩ := rfl

namespace Evaluator

variable {registry : Registry} {source : Value}

theorem runToken_eq_mapError_invoke (current : Option Value) (token : Token) :
    runToken registry source current token =
      (registry.invoke token.name (current.getD source) source
        (token.args.map Arg.ofText)).mapError (token.report registry) := by
  rw [runToken, Registry.invoke, Token.arguments]
  cases hget : registry.get? token.name with
  | none =>
      change _ = Except.error (token.report registry (.unknownFilter token.name))
      rw [token.report_of_get?_eq_none hget]
  | some filter =>
      have hreport : token.report registry = MappingError.filter token.name := by
        funext cause
        exact token.report_of_get?_eq_some hget cause
      rw [hreport]

/-- A pipeline of tokens runs them one after the other, each on what the one before has made and
the first one on the source. -/
theorem evaluate_tokens_eq_foldlM (evaluator : Evaluator) (source : Value) {tokens : List Token}
    (htokens : tokens ≠ []) (hdepth : 2 ≤ evaluator.maxDepth) :
    evaluator.evaluate source (.sequence (tokens.map Spec.filter)) =
      tokens.foldlM (fun output token => runToken evaluator.registry source (some output) token)
        source := by
  obtain ⟨first, rest, rfl⟩ := List.exists_cons_of_ne_nil htokens
  have hsteps : Spec.stepsHeight ((first :: rest).map Spec.filter) ≤ 1 := by
    rw [Spec.stepsHeight_le_iff]
    intro step hmem
    obtain ⟨token, -, rfl⟩ := List.mem_map.mp hmem
    exact Nat.le_refl _
  have hheight : (Spec.sequence ((first :: rest).map Spec.filter)).height + 1 ≤
      evaluator.maxDepth + 1 := by
    rw [Spec.height]
    omega
  rw [evaluate, run_eq_denote _ none 1 hheight, List.map_cons, Spec.denote, Spec.denote,
    List.foldlM_cons]
  refine bind_congr fun output => ?_
  rw [Spec.denoteSteps_eq_foldlM, List.foldlM_map]
  exact foldlM_congr (fun token _ output => by rw [Spec.denote]) output

theorem run_tokens_of_ok (chain : Chain) {tokens : List Token} {value : Value}
    (hclean : chain.firstError = none)
    (hfold : tokens.foldlM (fun output token =>
      runToken chain.registry chain.source (some output) token) chain.value = .ok value) :
    (chain.run (tokens.map Token.action)).firstError = none ∧
      (chain.run (tokens.map Token.action)).value = value := by
  induction tokens generalizing chain with
  | nil =>
      cases hfold
      exact ⟨hclean, rfl⟩
  | cons token rest ih =>
      rw [List.foldlM_cons, runToken_eq_mapError_invoke] at hfold
      obtain ⟨output, htoken, hrest⟩ := bind_eq_ok_iff.mp hfold
      have hcall : token.action.Gives chain.registry chain.source chain.value (.ok output) :=
        Registry.gives_iff.mpr (mapError_eq_ok_iff.mp htoken)
      rw [List.map_cons, Chain.run_cons, Chain.step_of_gives hcall]
      exact ih _ hclean hrest

theorem ofTokens_eq_run (hset : registry.get? "set" = Registry.standard.get? "set")
    (tokens : List Token) :
    Chain.ofTokens registry source tokens =
      ({ Chain.start registry source with value := source } : Chain).run
        (tokens.map Token.action) := by
  have hinvoke : registry.invoke "set" .null source [.value source] = .ok source := by
    rw [Registry.invoke, hset, Registry.standard_get?_set]
    rfl
  have hpath : (Chain.Action.method (.set source)).recordedPath? registry = none := by
    change (registry.get? "set").bind _ = none
    rw [hset, Registry.standard_get?_set]
    rfl
  have hstep : (Chain.start registry source).step (.method (.set source)) =
      (Chain.start registry source).settle
        ((Chain.Action.method (.set source)).recordedPath? registry) (.ok source) :=
    Chain.step_of_gives (Registry.gives_iff.mpr hinvoke)
  rw [Chain.ofTokens, Chain.run_cons, hstep, hpath]
  rfl

/-- Tokens that fail as a pipeline fail as calls, at the same token, and the first cause stays. -/
theorem run_tokens_of_error (chain : Chain) {tokens : List Token} {error : MappingError}
    (hclean : chain.firstError = none)
    (hfold : tokens.foldlM (fun output token =>
      runToken chain.registry chain.source (some output) token) chain.value = .error error) :
    ∃ before token after cause, tokens = before ++ token :: after ∧
      (chain.run (before.map Token.action)).firstError = none ∧
      chain.registry.invoke token.name (chain.run (before.map Token.action)).value chain.source
        (token.args.map Arg.ofText) = .error cause ∧
      error = token.report chain.registry cause ∧
      (chain.run (tokens.map Token.action)).firstError = some cause := by
  obtain ⟨before, token, after, middle, rfl, hbefore, htoken⟩ := foldlM_eq_error_iff.mp hfold
  rw [runToken_eq_mapError_invoke] at htoken
  obtain ⟨cause, hinvoke, hreport⟩ := mapError_eq_error_iff.mp htoken
  obtain ⟨hfirst, hvalue⟩ := run_tokens_of_ok chain hclean hbefore
  obtain ⟨hregistry, hsource⟩ := chain.run_frame (before.map Token.action)
  rw [← hvalue] at hinvoke
  have hcall : token.action.Gives (chain.run (before.map Token.action)).registry
      (chain.run (before.map Token.action)).source
      (chain.run (before.map Token.action)).value (.error cause) := by
    rw [hregistry, hsource]
    exact Registry.gives_iff.mpr hinvoke
  have hstep : ((chain.run (before.map Token.action)).step token.action).firstError =
      some cause := by
    rw [Chain.step_of_gives hcall, Chain.settle, Chain.fail, hfirst]
    rfl
  refine ⟨before, token, after, cause, rfl, hfirst, hinvoke, hreport.symm, ?_⟩
  rw [List.map_append, Chain.run_append]
  exact Chain.firstError_run_of_eq_some hstep (after.map Token.action)

/-- **Pipelines of tokens agree with chains.** Both give the same value, or stop at the same token
for the same reason. -/
theorem evaluate_tokens (evaluator : Evaluator) (source : Value) (tokens : List Token)
    (hset : evaluator.registry.get? "set" = Registry.standard.get? "set")
    (htokens : tokens ≠ []) (hdepth : 2 ≤ evaluator.maxDepth) :
    let outcome := evaluator.evaluate source (.sequence (tokens.map Spec.filter))
    let chain := Chain.ofTokens evaluator.registry source
    (∀ value, outcome = .ok value ↔ (chain tokens).result = .ok value) ∧
    ∀ error, outcome = .error error →
      (chain tokens).isClean = false ∧
      ∃ before token after cause, tokens = before ++ token :: after ∧
        (chain before).isClean = true ∧
        evaluator.registry.invoke token.name (chain before).value source
          (token.args.map Arg.ofText) = .error cause ∧
        (chain tokens).firstError = some cause ∧
        (evaluator.registry.get? token.name = none ∧
            error = .unknownFilter token.name ∧ cause = .unknownFilter token.name ∨
          (evaluator.registry.get? token.name).isSome ∧ error = .filter token.name cause) := by
  intro outcome chain
  let start : Chain := { Chain.start evaluator.registry source with value := source }
  have hchain : ∀ tokens, chain tokens = start.run (tokens.map Token.action) := ofTokens_eq_run hset
  have hfold : outcome = tokens.foldlM (fun output token =>
      runToken evaluator.registry source (some output) token) source :=
    evaluate_tokens_eq_foldlM evaluator source htokens hdepth
  have hok : ∀ value, outcome = .ok value → (chain tokens).result = .ok value := by
    intro value houtcome
    obtain ⟨hfirst, hvalue⟩ := run_tokens_of_ok start rfl (hfold.symm.trans houtcome)
    rw [hchain, Chain.result, hfirst, hvalue]
  refine ⟨fun value => ⟨hok value, fun hresult => ?_⟩, fun error houtcome => ?_⟩
  · cases houtcome : outcome with
    | ok other =>
        have hvalue : value = other := Except.ok.inj (hresult.symm.trans (hok other houtcome))
        rw [hvalue]
    | error error =>
        obtain ⟨_, _, _, cause, _, _, _, _, hfirst⟩ :=
          run_tokens_of_error start rfl (hfold.symm.trans houtcome)
        rw [hchain, Chain.result, hfirst] at hresult
        cases hresult
  · obtain ⟨before, token, after, cause, hsplit, hbefore, hinvoke, hreport, hfirst⟩ :=
      run_tokens_of_error start rfl (hfold.symm.trans houtcome)
    rw [← hchain] at hbefore hinvoke hfirst
    refine ⟨Chain.isClean_eq_false_iff.mpr ⟨cause, hfirst⟩, before, token, after, cause, hsplit,
      Option.isNone_iff_eq_none.mpr hbefore, hinvoke, hfirst, ?_⟩
    rw [hreport]
    cases hget : evaluator.registry.get? token.name with
    | none =>
        have hunknown : evaluator.registry.invoke token.name (chain before).value source
            (token.args.map Arg.ofText) = .error (.unknownFilter token.name) :=
          Registry.gives_iff.mp (.unknown hget)
        exact Or.inl ⟨rfl, token.report_of_get?_eq_none hget cause,
          Except.error.inj (hinvoke.symm.trans hunknown)⟩
    | some filter => exact Or.inr ⟨rfl, token.report_of_get?_eq_some hget cause⟩

/-- The call after an unregistered name still runs, but the chain remembers the name. -/
theorem evaluate_tokens_unregistered :
    let tokens : List Token := [⟨"identity", []⟩, ⟨"absent", ["1"]⟩, ⟨"toArray", []⟩]
    let chain := Chain.ofTokens .standard (.bool true)
    let error : MappingError := .unknownFilter "absent"
    evaluate ⟨.standard, 2⟩ (.bool true) (.sequence (tokens.map Spec.filter)) = .error error ∧
      (chain tokens).isClean = false ∧
      ∃ before token after cause, tokens = before ++ token :: after ∧
        (chain before).isClean = true ∧
        Registry.standard.invoke token.name (chain before).value (.bool true)
          (token.args.map Arg.ofText) = .error cause ∧
        (chain tokens).firstError = some cause ∧
        (Registry.standard.get? token.name = none ∧
            error = .unknownFilter token.name ∧ cause = .unknownFilter token.name ∨
          (Registry.standard.get? token.name).isSome ∧ error = .filter token.name cause) := by
  intro tokens chain error
  have houtcome : evaluate ⟨.standard, 2⟩ (.bool true) (.sequence (tokens.map Spec.filter)) =
      .error error := rfl
  have htokens : tokens ≠ [] := List.cons_ne_nil _ _
  have hagree := evaluate_tokens ⟨.standard, 2⟩ (.bool true) tokens rfl htokens (by decide)
  exact ⟨houtcome, hagree.2 error houtcome⟩

end Evaluator

end Reshape
