import Terminald.Model.Routes

namespace Terminald.Routes
open Machine Auth Assets

variable {world : World} {state : AppState} {request : Request}

theorem authorize_rejected (h : state.auth.validateHeaders request.headers = false) :
    state.auth.authorizeRequest request.headers = .error rejection := by
  simp [AuthConfig.authorizeRequest,h]

theorem authorize_accepted (h : state.auth.validateHeaders request.headers = true) :
    state.auth.authorizeRequest request.headers = .ok () := by
  simp [AuthConfig.authorizeRequest,h]

/-- Whatever the path: the challenge, and nothing set going. -/
theorem dispatch_rejected (h : state.auth.validateHeaders request.headers = false) :
    dispatch world state request = (rejection,[]) := by
  unfold dispatch
  dsimp only
  split
  · simp [authCheck,authorize_rejected h]
  · split <;> simp [authorize_rejected h]

theorem redirect_status (location : Text) : (redirectPermanent location).status ≠ 401 := by
  unfold redirectPermanent
  split <;> simp [Response.ofText]

/-- An accepted request is not answered like a rejected one. -/
theorem dispatch_accepted (hreject : ∀ r e, world.upgrade r = .error e → e.status ≠ 401)
    (haccept : ∀ r a, world.upgrade r = .ok a → a.status = 101 ∨ a.status = 200)
    (h : state.auth.validateHeaders request.headers = true) :
    (dispatch world state request).1.status ≠ 401 := by
  unfold dispatch
  dsimp only
  split
  · simp [authCheck,authorize_accepted h,Response.ofStatus]
  · split
    · rw [authorize_accepted h]
      dsimp only
      split
      · rename_i e he
        exact hreject request e he
      · rename_i a ha
        rcases haccept request a ha with hs | hs <;> simp [hs]
    · rw [authorize_accepted h]
      dsimp only
      split
      · exact redirect_status _
      · split <;> simp [Asset.response,Response.ofStatus,Response.ofText]

/-- A rejected request gets the challenge and sets nothing going; no two rejected
requests are told apart, whatever the servers; an accepted one is never
answered with that status. -/
theorem authentication_gates
    (hreject : ∀ r e, world.upgrade r = .error e → e.status ≠ 401)
    (haccept : ∀ r a, world.upgrade r = .ok a → a.status = 101 ∨ a.status = 200) :
    (∀ state request, state.auth.validateHeaders request.headers = false →
      dispatch world state request = (rejection,[])) ∧
    (∀ world₁ state₁ request₁ world₂ state₂ request₂,
      state₁.auth.isEnabled = true → state₁.auth.validateHeaders request₁.headers = false →
      state₂.auth.isEnabled = true → state₂.auth.validateHeaders request₂.headers = false →
      dispatch world₁ state₁ request₁ = dispatch world₂ state₂ request₂) ∧
    (∀ state request, state.auth.validateHeaders request.headers = true →
      (dispatch world state request).1.status ≠ 401) := by
  refine ⟨fun _ _ => dispatch_rejected,?_,fun _ _ => dispatch_accepted hreject haccept⟩
  intro world₁ state₁ request₁ world₂ state₂ request₂ _ h₁ _ h₂
  rw [dispatch_rejected h₁,dispatch_rejected h₂]

/-- No files, and no upgrade without the right headers. -/
def bareWorld : World := ⟨⟨fun _ => none,fun _ => none⟩,fun _ =>
  .error (.ofText 400 "Connection header did not include 'upgrade'")⟩

def user : Credential := ⟨"user".toList,"pass".toList,by decide⟩

theorem authentication_gates_ws :
    dispatch bareWorld ⟨.basic user,.embedded,["bash"]⟩ ⟨.get,"/a/ws".toList,[]⟩ = (rejection,[]) ∧
      (dispatch bareWorld ⟨.disabled,.embedded,["bash"]⟩ ⟨.get,"/a/ws".toList,[]⟩).1.status ≠ 401 := by
  have hreject : ∀ r e, bareWorld.upgrade r = .error e → e.status ≠ 401 := by
    simp [bareWorld,Response.ofText]
  have haccept : ∀ r a, bareWorld.upgrade r = .ok a → a.status = 101 ∨ a.status = 200 := by
    simp [bareWorld]
  have h := authentication_gates hreject haccept
  exact ⟨h.1 _ _ (by decide),h.2.2 _ _ (by decide)⟩

end Terminald.Routes
