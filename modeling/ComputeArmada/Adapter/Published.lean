import ComputeArmada.Adapter.Twins
import ComputeArmada.Adapter.Address

/-!
# What Armada and Lookout are sent

Whatever is sent to Armada is public for good. It does not depend on the secret of the agents' tokens beyond
the hashes, nor on the credentials, the values of variables or the contents of files.

* `published` : the URLs and the bodies of the requests to Armada and Lookout;
* `publishes_no_secret`.
-/

namespace ComputeArmada.Adapter
open Async

def published (log : List (Caller Call × Request)) : List (String × Body) :=
  log.filterMap fun x =>
    match x.2 with
    | .post base _ body => some (base ++ body.path, body)
    | _ => none

/-! ## Two runs -/

theorem published_eq {log log' : List (Caller Call × Request)}
    (h : List.Forall₂ (LogTwin secrets CallTwin) log log') : published log = published log' := by
  induction h with
  | nil => rfl
  | @cons x x' log log' hx _ ih =>
    obtain ⟨c, q⟩ := x
    obtain ⟨c', q'⟩ := x'
    unfold published at ih ⊢
    rw [List.filterMap_cons, List.filterMap_cons, ih]
    cases hx.asked <;> rfl

/-- **Nothing secret is published**: two runs of processes that differ in the secret of the tokens, with the
same hashes of them, and in the credentials, that make the same calls but for the values of variables and the
contents of files, and that get the same answers, send Armada and Lookout the same. -/
theorem publishes_no_secret (crypto : Crypto) (config : ArmadaConfig) (secret : String) (auth : ArmadaAuth)
    (made : Nat → Made) (hauth : AuthTwin config.auth auth)
    (hhash : ∀ me, crypto.sha256 (agentToken crypto config.agentTokenSecret (made me).id) =
      crypto.sha256 (agentToken crypto secret (made me).id))
    {s s' : Shared} (hs : SharedTwin s s') {steps steps' : List (Act (Σ q, Answer q) Empty Call)}
    (hsteps : List.Forall₂ (ActTwin secrets CallTwin) steps steps')
    {w w' : Async.World Shared Answer JsError Result Unit Call}
    (h : steps.foldlM (openSystem (body crypto config made)).step (.start s ()) = some w)
    (h' : steps'.foldlM (openSystem (body crypto (config.withSecrets secret auth) made)).step
      (.start s' ()) = some w') :
    published w.log = published w'.log := by
  have hclosed := secrets_closed crypto config (config.withSecrets secret auth)
  have htwin : WorldTwin secrets CallTwin (Ends ResultTwin) w w' :=
    WorldTwin.runs (fun call call' hcall => pair_body hclosed hauth hhash (fun hc hr => .agent hc hr)
      (fun onlyIfUnset hkeys _ hs => SharedTwin.setVars hs _ hkeys onlyIfUnset) hcall) (.start hs) hsteps h h'
  exact published_eq htwin.log

/-- A variable is set, and the sandbox is submitted. -/
def submitsWith (value : String) : List (Act (Σ q, Answer q) Empty Call) :=
  [.begin 0 (.sandbox 0 (.setEnvVars [("API_KEY", value)] false)), .begin 1 (.sandbox 0 .ready),
   .serve 1 ⟨.turn, ()⟩, .resume 1, .serve 1 ⟨.turn, ()⟩, .resume 1, .serve 1 ⟨.turn, ()⟩, .resume 1,
   .serve 1 ⟨.turn, ()⟩, .resume 1]

def passwordConfig (password : String) : ArmadaConfig := { plainConfig with auth := .basic "hub" password }

theorem publishes_no_secret_submitted : ∃ w w',
    (submitsWith "s3cret").foldlM (openSystem (body digests (passwordConfig "hunter2") created)).step
      (.start .init ()) = some w ∧
    (submitsWith "").foldlM
      (openSystem (body digests ((passwordConfig "hunter2").withSecrets tokenSecret (.basic "hub" "p"))
      created)).step (.start .init ()) = some w' ∧
    (published w.log).length = 1 ∧ published w.log = published w'.log := by
  have hrun : ((submitsWith "s3cret").foldlM (openSystem (body digests (passwordConfig "hunter2") created)).step
      (.start .init ())).any (fun w => (published w.log).length = 1) = true := by
    decide +kernel
  have hrun' : ((submitsWith "").foldlM (openSystem (body digests
      ((passwordConfig "hunter2").withSecrets tokenSecret (.basic "hub" "p")) created)).step (.start .init ())).isSome =
      true := by
    decide +kernel
  obtain ⟨w, hw, hlength⟩ := (Option.any_eq_true _ _).mp hrun
  obtain ⟨w', hw'⟩ := Option.isSome_iff_exists.mp hrun'
  have hturns : ∀ n : Nat, List.Forall₂ (ActTwin secrets CallTwin)
      [.serve n ⟨.turn, ()⟩, .resume n] [.serve n ⟨.turn, ()⟩, .resume n] := fun n =>
    .cons (.serve n trivial) (.cons (.resume n) .nil)
  have hsteps : List.Forall₂ (ActTwin secrets CallTwin) (submitsWith "s3cret") (submitsWith "") := by
    refine .cons (.begin 0 (.sandbox 0 (.setEnvVars false rfl))) (.cons (.begin 1 (.sandbox 0 (.same .ready))) ?_)
    exact List.rel_append (hturns 1) (List.rel_append (hturns 1) (List.rel_append (hturns 1) (hturns 1)))
  exact ⟨w, w', hw, hw', of_decide_eq_true hlength, publishes_no_secret digests (passwordConfig "hunter2") tokenSecret
    (.basic "hub" "p") created (.basic _ _ _ _) (fun _ => rfl) (SharedTwin.refl .init) hsteps hw hw'⟩

end ComputeArmada.Adapter
