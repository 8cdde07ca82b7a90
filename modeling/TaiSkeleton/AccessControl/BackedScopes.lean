import TaiSkeleton.AccessControl.ScopeLocks

/-!
# The scopes of a policy have a route

Each statement of the store leaves the concrete scopes of the policies backed, if an upsert, a
delete or a check that takes a route from its scope without the cascade spares the scope. So every
concrete scope of a policy has a route whenever no transaction is in flight.
-/

namespace TaiSkeleton.AccessControl

open Lib

variable {τ υ : Type} {settings : Settings} {s s' : ScopeState τ υ} {t : τ} {url url' : Path}
  {user scope : String} {row : Option RouteBinding} {before call : ScopeCall υ}
  {body : PolicyBody υ}

/-! ## What a transaction reads -/

theorem strips_of_covers (h : s.Covers t user scope) (hcall : s.calls t = call) :
    s.Strips t user scope call :=
  hcall ▸ h.2

theorem ScopeState.Kept.scopeOf (h : s.Kept url scope) (t : τ) : s.scopeOf t url = some scope := by
  unfold ScopeState.scopeOf
  rcases s.routes.view_cases t url with ⟨-, hview⟩ | hpending
  · rw [hview]
    exact h.1
  · exact h.2 t _ hpending

theorem ScopeState.ScopeInv.view_route (h : s.ScopeInv settings) (hbefore : s.calls t = before)
    (hnot : before.writesRoutes = false) (url : Path) :
    s.routes.view t url = s.routes.committed url := by
  subst hbefore
  refine Rows.view_of_none ?_
  by_contra hheld
  rw [(h.own t).routing url hheld] at hnot
  cases hnot

theorem ScopeState.ScopeInv.pending_policy (h : s.ScopeInv settings)
    (hbefore : s.calls t = before) (hnot : before.writesPolicies = false) (user : String) :
    s.policies.pending t user = none := by
  subst hbefore
  by_contra hheld
  rw [(h.own t).writing user hheld] at hnot
  cases hnot

theorem covers_of_undisturbed (h : Undisturbed s s' t)
    (hroutes : s'.routes.committed = s.routes.committed)
    (hpolicies : s'.policies.committed = s.policies.committed) (hcovers : s'.Covers t user scope) :
    s.Covers t user scope := by
  have hback : Undisturbed s' s t := ⟨h.calls.symm, fun url => (h.shared url).symm,
    fun url => (h.routes url).symm, fun user => (h.policies user).symm,
    fun url _ => (congrFun hroutes url).symm, fun user _ => (congrFun hpolicies user).symm⟩
  exact hback.covers hcovers

section

variable [DecidableEq τ]

/-! ## The statements of a removal -/

theorem covers_set (hdeletes : ∃ url, (s.routes.committed url).map RouteBinding.scopeId =
    some scope ∧ s.routes.pending t url = some none) (hstrips : s.Strips t user scope call) :
    (s.set t call).Covers t user scope := by
  refine ⟨hdeletes, ?_⟩
  have hcalls : (s.set t call).calls t = call := Function.update_self _ _ _
  rw [hcalls]
  cases call <;> exact hstrips

/-- A transaction that deletes a route of a scope covers the scope from then on. -/
theorem covers_putRoute (hdeletes : (s.routes.committed url).map RouteBinding.scopeId =
      some scope ∨ ∃ url', (s.routes.committed url').map RouteBinding.scopeId = some scope ∧
        s.routes.pending t url' = some none)
    (hstrips : s.Strips t user scope call) :
    (s.putRoute t url none call).Covers t user scope := by
  have hcalls : (s.putRoute t url none call).calls t = call := Function.update_self _ _ _
  constructor
  · rcases hdeletes with hscope | ⟨url', hscope, hdeleted⟩
    · exact ⟨url, hscope, pending_putRoute.trans (if_pos ⟨rfl, rfl⟩)⟩
    · refine ⟨url', hscope, pending_putRoute.trans ?_⟩
      split_ifs
      · rfl
      · exact hdeleted
  · rw [hcalls]
    cases call <;> exact hstrips

namespace ScopeState.ScopeInv

/-- A route that is deleted behind the read of its scope is covered, and any other is spared. -/
theorem remove (h : s.ScopeInv settings) (hcall : s.calls t = .removing url scope)
    (hkeeps : s.KeepsCall t (.removing url scope)) (hfree : s.MayWrite t url) :
    (s.putRoute t url none (if scope = settings.publicResourceId then .done
      else .checking url scope)).ScopeInv settings := by
  refine h.putRoute hcall hfree.1 (h.not_shared hcall rfl hfree) rfl ?_ nofun ?_ ?_ ?_
  · split_ifs <;> rfl
  · split_ifs <;> trivial
  · intro user scope' hlists hne hpublic hkept
    by_cases hscope : scope' = scope
    · subst hscope
      rw [if_neg hpublic]
      exact .inr ⟨t, covers_putRoute (.inl hkept.1) rfl⟩
    · exact (hkeeps scope' hkept.1 hscope).backedAt hlists hne
        (fun t' ht => undisturbed_putRoute ht) fun url' hurl => kept_putRoute_of_ne hurl
  · exact fun user scope' hcovers => (strips_of_covers hcovers hcall).elim

/-- A row of the scope is deleted with the scope. -/
theorem removeRow {urls : Set Path} (h : s.ScopeInv settings)
    (hcall : s.calls t = .removingRows scope urls) (hfree : s.MayWrite t url)
    (hscope : s.scopeOf t url = some scope) :
    (s.putRoute t url none (.removingRows scope (urls \ {url}))).ScopeInv settings := by
  refine h.putRoute hcall hfree.1 (h.not_shared hcall rfl hfree) rfl rfl nofun trivial ?_ ?_
  · intro user scope' _ _ _ hkept
    obtain rfl := Option.some.inj (hscope.symm.trans (hkept.scopeOf t))
    exact .inr ⟨t, covers_putRoute (.inl hkept.1) rfl⟩
  · intro user scope' hcovers
    have hsame : scope = scope' := strips_of_covers hcovers hcall
    exact .inr ⟨t, covers_putRoute (.inr hcovers.1) hsame⟩

/-- The policies that list the scope are those that are committed with it. -/
theorem strip (h : s.ScopeInv settings) (hcall : s.calls t = .stripping scope) :
    (s.set t (.strippingRows scope {user | scope ∈ s.scopesOf t user})).ScopeInv settings := by
  have hpending : ∀ user, s.policies.pending t user = none := h.pending_policy hcall rfl
  refine h.set hcall nofun (fun _ => rfl) (fun _ => rfl) (fun user _ => hpending user) ?_
  · rintro user scope' ⟨body, hbody, hmem⟩ _ hcovers
    obtain rfl := strips_of_covers hcovers hcall
    refine .inr ⟨t, covers_set hcovers.1 ⟨rfl, .inl ?_⟩⟩
    show scope ∈ (s.policies.view t user).elim [] PolicyBody.scopes
    rw [Rows.view_of_none (hpending user), hbody]
    exact hmem

theorem stripRow {users : Set String} (h : s.ScopeInv settings)
    (hcall : s.calls t = .strippingRows scope users) (huser : user ∈ users)
    (hfree : s.policies.FreeFor t user) (hbody : s.policies.view t user = some body) :
    (s.putPolicy t user (stripScope scope body)
      (.strippingRows scope (users \ {user}))).ScopeInv settings := by
  have hown := (h.own t).call
  rw [hcall] at hown
  have hcommitted : s.policies.committed user = some body :=
    (Rows.view_of_none (hown user huser)).symm.trans hbody
  refine h.putPolicy hcall hfree nofun (fun _ => rfl) rfl ?_ ?_ ?_
  · intro user' huser'
    exact Rows.write_pending.trans ((if_neg fun heq => huser'.2 heq.2).trans (hown user' huser'.1))
  · exact fun scope' hmem _ => .inr ⟨body, hcommitted, List.mem_of_mem_filter hmem⟩
  · intro user' scope' hcovers
    obtain ⟨rfl, hor⟩ := strips_of_covers hcovers hcall
    have hcalls : (s.putPolicy t user (stripScope scope body)
        (.strippingRows scope (users \ {user}))).calls t = .strippingRows scope (users \ {user}) :=
      Function.update_self _ _ _
    refine .inr ⟨t, hcovers.1, ?_⟩
    rw [hcalls]
    refine ⟨rfl, ?_⟩
    by_cases hsame : user' = user
    · subst hsame
      refine .inr ⟨_, Rows.write_pending.trans (if_pos ⟨rfl, rfl⟩), ?_⟩
      simp [stripScope]
    · rcases hor with hleft | ⟨body', hpending, hnot⟩
      · exact .inl ⟨hleft, hsame⟩
      · refine .inr ⟨body', Rows.write_pending.trans ?_, hnot⟩
        exact (if_neg fun heq => hsame heq.2).trans hpending

/-- A policy that is left out does not list the scope any more. -/
theorem leavePolicy {users : Set String} (h : s.ScopeInv settings)
    (hcall : s.calls t = .strippingRows scope users) (huser : user ∈ users)
    (hscope : scope ∉ s.scopesOf t user) :
    (s.set t (.strippingRows scope (users \ {user}))).ScopeInv settings := by
  have hown := (h.own t).call
  rw [hcall] at hown
  refine h.set hcall nofun (fun _ => rfl) (fun _ => rfl)
    (fun user' huser' => hown user' huser'.1) ?_
  · rintro user' scope' ⟨body, hbody, hmem⟩ _ hcovers
    obtain ⟨rfl, hor⟩ := strips_of_covers hcovers hcall
    refine .inr ⟨t, covers_set hcovers.1 ⟨rfl, hor.imp_left fun hleft => ⟨hleft, ?_⟩⟩⟩
    rintro rfl
    unfold ScopeState.scopesOf at hscope
    rw [Rows.view_of_none (hown user' huser), hbody] at hscope
    exact hscope hmem

/-! ## The statements of the other requests -/

/-- An upsert takes a route from another scope where that is spared. -/
theorem upsert {row : RouteBinding} (h : s.ScopeInv settings)
    (hcall : s.calls t = .upserting url row) (hkeeps : s.KeepsCall t (.upserting url row))
    (hfree : s.MayWrite t url) :
    (s.putRoute t url (some row) .done).ScopeInv settings := by
  refine h.putRoute hcall hfree.1 (h.not_shared hcall rfl hfree) rfl rfl (fun _ => rfl) trivial
    ?_ ?_
  · intro user scope hlists hne _ hkept
    by_cases hscope : scope = row.scopeId
    · exact .inl ⟨url, kept_putRoute (fun _ => congrArg some hscope.symm) hkept⟩
    · exact (hkeeps scope hkept.1 hscope).backedAt hlists hne
        (fun t' ht => undisturbed_putRoute ht) fun url' hurl => kept_putRoute_of_ne hurl
  · exact fun user scope hcovers => (strips_of_covers hcovers hcall).elim

theorem lockPin {row : RouteBinding} (h : s.ScopeInv settings) (hcall : s.calls t = .unpinning url)
    (hfree : s.MayWrite t url) (hrow : s.routes.view t url = some row) :
    (s.putRoute t url (some row) (if row.scopeId = settings.publicResourceId then .unpinned url
      else .done)).ScopeInv settings := by
  have hcommitted : s.routes.committed url = some row :=
    (h.view_route hcall rfl url).symm.trans hrow
  refine h.putRoute hcall hfree.1 (h.not_shared hcall rfl hfree) rfl ?_ nofun ?_ ?_ ?_
  · split_ifs <;> rfl
  · split_ifs with hpublic
    · refine ⟨?_, ?_⟩
      · rw [pending_putRoute, if_pos ⟨rfl, rfl⟩]
        exact Option.some_ne_none _
      · show (s.routes.committed url).map RouteBinding.scopeId = _
        rw [hcommitted]
        exact congrArg some hpublic
    · trivial
  · intro user scope _ _ _ hkept
    refine .inl ⟨url, kept_putRoute (fun _ => ?_) hkept⟩
    rw [← hcommitted]
    exact hkept.1
  · exact fun user scope hcovers => (strips_of_covers hcovers hcall).elim

/-- A pin that is deleted is no route of a scope. -/
theorem unpin (h : s.ScopeInv settings) (hcall : s.calls t = .unpinned url) :
    (s.putRoute t url none .done).ScopeInv settings := by
  have hown := (h.own t).call
  rw [hcall] at hown
  refine h.putRoute hcall (h.routes.freeFor hown.1) ?_ rfl rfl (fun _ => rfl) trivial ?_ ?_
  · exact fun t' hshared => hown.1 (h.shared t' t url hshared)
  · intro user scope _ _ hpublic hkept
    exact absurd (Option.some.inj (hkept.1.symm.trans hown.2)) hpublic
  · exact fun user scope hcovers => (strips_of_covers hcovers hcall).elim

/-- A check that finds a route ends the cascade where the scope is spared. -/
theorem check (h : s.ScopeInv settings) (hcall : s.calls t = .checking url scope)
    (hkeeps : s.Spared t ∅ scope) : (s.set t .done).ScopeInv settings := by
  refine h.set hcall (fun _ => rfl) (fun _ => rfl) (fun _ => rfl) trivial ?_
  intro user scope' hlists hne hcovers
  obtain rfl := strips_of_covers hcovers hcall
  exact hkeeps.backedAt hlists hne (fun t' ht => undisturbed_set ht) fun url' _ hkept => hkept

theorem lockRow {grant : PolicyGrant υ} {urls : Set Path} {live : Set String}
    (h : s.ScopeInv settings) (hcall : s.calls t = .lockingRows grant urls live)
    (hfree : s.routes.FreeFor t url) (hscope : s.scopeOf t url = some scope)
    (hasked : s.Asked settings t grant url) :
    (s.share t url (.lockingRows grant (urls \ {url}) (insert scope live))).ScopeInv settings := by
  have hown := (h.own t).call
  rw [hcall] at hown
  have hshared : ∀ url', (s.share t url
      (.lockingRows grant (urls \ {url}) (insert scope live))).shared t url' ↔
        (url' = url ∨ s.shared t url') := fun url' => by
    show Function.update s.shared t _ t url' ↔ _
    rw [Function.update_self]
  refine h.share hcall hfree rfl rfl rfl ?_
  rintro scope' (rfl | hlive)
  · obtain ⟨scope, hmem, -, hpublic⟩ := hasked
    obtain rfl := Option.some.inj (hscope.symm.trans hmem)
    refine ⟨hpublic, url, (hshared url).mpr (.inl rfl), ?_⟩
    unfold ScopeState.scopeOf at hscope
    rwa [h.view_route hcall rfl] at hscope
  · obtain ⟨hpublic, url', hheld, hcommitted⟩ := hown scope' hlive
    exact ⟨hpublic, url', (hshared url').mpr (.inr hheld), hcommitted⟩

/-- A new policy lists the scopes whose routes are locked. -/
theorem insert (h : s.ScopeInv settings) (hcall : s.calls t = .writing (.create user body))
    (hfree : s.policies.FreeFor t user) : (s.putPolicy t user body .done).ScopeInv settings := by
  have hown := (h.own t).call
  rw [hcall] at hown
  refine h.putPolicy hcall hfree (fun _ => rfl) (fun _ => rfl) rfl trivial ?_ ?_
  · exact fun scope hmem hne => .inl (hown scope (List.mem_filter.mpr ⟨hmem, by simpa using hne⟩))
  · exact fun user scope hcovers => (strips_of_covers hcovers hcall).elim

/-- An edit lists the scopes that it is given, or those of the policy. -/
theorem lockPolicy {updates : PolicyUpdates υ} (h : s.ScopeInv settings)
    (hcall : s.calls t = .writing (.update user updates)) (hfree : s.policies.FreeFor t user)
    (hbody : s.policies.view t user = some body) :
    (s.putPolicy t user body
      (.updating user (updatePolicyFields updates body))).ScopeInv settings := by
  have hown := (h.own t).call
  rw [hcall] at hown
  have hcommitted : s.policies.committed user = some body :=
    (Rows.view_of_none (h.pending_policy hcall rfl user)).symm.trans hbody
  refine h.putPolicy hcall hfree (fun _ => rfl) nofun rfl ⟨?_, ?_⟩ ?_ ?_
  · exact (Rows.write_pending.trans (if_pos ⟨rfl, rfl⟩)).trans_ne (Option.some_ne_none _)
  · intro scope hmem hne
    unfold updatePolicyFields at hmem
    cases hscopes : updates.scopes with
    | none =>
      rw [hscopes] at hmem
      exact .inr ⟨body, hcommitted, hmem⟩
    | some scopes =>
      rw [hscopes] at hmem
      refine .inl (hown scope (List.mem_filter.mpr ⟨?_, by simpa using hne⟩))
      rw [hscopes]
      exact hmem
  · exact fun scope hmem _ => .inr ⟨body, hcommitted, hmem⟩
  · exact fun user scope hcovers => (strips_of_covers hcovers hcall).elim

theorem update (h : s.ScopeInv settings) (hcall : s.calls t = .updating user body) :
    (s.putPolicy t user body .done).ScopeInv settings := by
  have hown := (h.own t).call
  rw [hcall] at hown
  refine h.putPolicy hcall (h.policies.freeFor hown.1) (fun _ => rfl) (fun _ => rfl) rfl trivial
    hown.2 ?_
  exact fun user scope hcovers => (strips_of_covers hcovers hcall).elim

/-! ## Any interleaving -/

theorem advance (h : s.ScopeInv settings) (hkeeps : s.KeepsCall t (s.calls t))
    (hstep : Advance settings s t (s.calls t) s') : s'.ScopeInv settings := by
  have hown := (h.own t).call
  generalize hcall : s.calls t = call at hstep hkeeps hown
  -- a statement before any lock goes on to one that may have none
  have hclean : ∀ call', call.sharesRoutes = false → call.writesRoutes = false →
      call.writesPolicies = false → s.CallOk settings t call' →
      (∀ user scope, ¬s.Strips t user scope call) → (s.set t call').ScopeInv settings := by
    intro call' hshares hroutes hpolicies hcall' hstrips
    refine h.set hcall ?_ ?_ ?_ hcall' fun user scope _ _ hcovers =>
      (hstrips user scope (strips_of_covers hcovers hcall)).elim
    · rw [hshares]
      nofun
    · rw [hroutes]
      nofun
    · rw [hpolicies]
      nofun
  cases hstep with
  | upsert hfree => exact h.upsert hcall hkeeps hfree
  | lockPin hfree hrow => exact h.lockPin hcall hfree hrow
  | noPin hrow => exact hclean _ rfl rfl rfl trivial fun _ _ => id
  | unpin => exact h.unpin hcall
  | find hscope => exact hclean _ rfl rfl rfl trivial fun _ _ => id
  | findNone hrow => exact hclean _ rfl rfl rfl trivial fun _ _ => id
  | remove hfree hrow => exact h.remove hcall hkeeps hfree
  | removeNone hrow =>
    refine hclean _ rfl rfl rfl ?_ fun _ _ => id
    split_ifs <;> trivial
  | check hfound => exact h.check hcall (hkeeps ⟨_, hfound⟩)
  | checkNone hnone | removedScope hend =>
    refine h.set hcall nofun (fun _ => rfl) nofun trivial fun user scope' _ _ hcovers => ?_
    have hsame := strips_of_covers hcovers hcall
    exact .inr ⟨t, covers_set hcovers.1 hsame⟩
  | removeScope => exact hclean _ rfl rfl rfl trivial fun _ _ => id
  | removeRow hurl hfree hscope => exact h.removeRow hcall hfree hscope
  | leaveRow hurl hfree hscope =>
    refine h.set hcall nofun (fun _ => rfl) nofun trivial fun user scope' _ _ hcovers => ?_
    have hsame := strips_of_covers hcovers hcall
    exact .inr ⟨t, covers_set hcovers.1 hsame⟩
  | strip => exact h.strip hcall
  | stripRow huser hfree hbody hscope => exact h.stripRow hcall huser hfree hbody
  | leavePolicy huser hfree hscope => exact h.leavePolicy hcall huser hscope
  | stripped hend =>
    refine h.set hcall (fun _ => rfl) (fun _ => rfl) (fun _ => rfl) trivial
      fun user scope' _ _ hcovers => ?_
    obtain ⟨-, hleft | hrewrote⟩ := strips_of_covers hcovers hcall
    · exact (hend user hleft).elim
    · exact .inr ⟨t, covers_set hcovers.1 hrewrote⟩
  | validate => exact hclean _ rfl rfl rfl (fun _ => False.elim) fun _ _ => id
  | lockRow hurl hfree hscope hasked => exact h.lockRow hcall hfree hscope hasked
  | skipRow hurl hfree hasked =>
    exact h.set hcall (fun _ => rfl) nofun nofun hown fun user scope' _ _ hcovers =>
      (strips_of_covers hcovers hcall).elim
  | validated hend hlive =>
    exact h.set hcall (fun _ => rfl) nofun nofun (fun scope hmem => hown scope (hlive scope hmem))
      fun user scope' _ _ hcovers => (strips_of_covers hcovers hcall).elim
  | insert hfree hrow => exact h.insert hcall hfree
  | lockPolicy hfree hbody => exact h.lockPolicy hcall hfree hbody
  | noPolicy hrow =>
    exact h.set hcall (fun _ => rfl) (fun _ => rfl) (fun _ => rfl) trivial
      fun user scope' _ _ hcovers => (strips_of_covers hcovers hcall).elim
  | update => exact h.update hcall

/-- A request starts from a transaction that holds nothing. -/
theorem start {request : ScopeRequest υ} (h : s.ScopeInv settings) (hidle : s.calls t = .idle)
    (hrequest : request.call settings = some call) : (s.set t call).ScopeInv settings := by
  have hgrant : ∀ grant : PolicyGrant υ, s.CallOk settings t grant.call := by
    intro grant
    unfold PolicyGrant.call
    split_ifs with hconcrete
    · intro scope hmem
      rw [hconcrete] at hmem
      cases hmem
    · trivial
  refine h.set hidle nofun nofun nofun ?_
    fun user scope _ _ hcovers => (strips_of_covers hcovers hidle).elim
  unfold ScopeRequest.call at hrequest
  cases request with
  | createPolicy | updatePolicyFields =>
    obtain rfl := Option.some.inj hrequest
    exact hgrant _
  | pinRoutePublic | removeScope =>
    dsimp only at hrequest
    split_ifs at hrequest
    obtain rfl := Option.some.inj hrequest
    trivial
  | _ =>
    obtain rfl := Option.some.inj hrequest
    trivial

theorem step {a : ScopeAct τ υ} (h : s.ScopeInv settings) (hkeeps : s.KeepsBacking a)
    (hstep : ScopeStep settings s a s') : s'.ScopeInv settings := by
  cases hstep with
  | start hidle hcall => exact h.start hidle hcall
  | step hadvance => exact h.advance hkeeps hadvance
  | commit hdone => exact h.commit hdone
  | abort => exact h.abort

theorem of_init (h : (scopeTransactions τ υ settings).init s) : s.ScopeInv settings := by
  obtain rfl := h
  refine ⟨.empty, .empty, fun _ _ _ => nofun, fun t => ?_, ?_⟩
  · refine ⟨fun _ => nofun, fun _ => nofun, fun _ => nofun, trivial, fun _ _ => nofun⟩
  · rintro user scope ⟨body, hbody, -⟩
    cases hbody

end ScopeState.ScopeInv

/-! ## A step that takes the last route -/

/-- Where a scope is not spared, a policy with it has nothing behind it after the step. -/
theorem exists_not_backedAt {taken : Set Path} (hnot : ¬s.Spared t taken scope)
    (hlists : ∀ user, s.Lists user scope → s'.Lists user scope)
    (hkept : ∀ url, s'.Kept url scope → url ∉ taken ∧ s.Kept url scope)
    (hothers : ∀ t' user, t' ≠ t → s'.Covers t' user scope → s.Covers t' user scope)
    (hown : ∀ user, ¬s'.Covers t user scope) :
    ∃ user scope, s'.Lists user scope ∧ scope ≠ "*" ∧ ¬s'.BackedAt user scope := by
  unfold ScopeState.Spared at hnot
  push Not at hnot
  obtain ⟨user, hlisted, hne, hnokept, hnocovers⟩ := hnot
  refine ⟨user, scope, hlists user hlisted, hne, ?_⟩
  rintro (⟨url, h⟩ | ⟨t', h⟩)
  · obtain ⟨hurl, hwas⟩ := hkept url h
    exact hnokept url hurl hwas
  · by_cases ht : t' = t
    · exact hown user (ht ▸ h)
    · exact hnocovers t' ht (hothers t' user ht h)

theorem exists_not_backedAt_putRoute (h : s.ScopeInv settings) (hbefore : s.calls t = before)
    (hpolicies : before.writesPolicies = false) (hrow : row.map RouteBinding.scopeId ≠ some scope)
    (hcall : call = .done ∨ ∃ scope', call = .checking url scope' ∧ scope' ≠ scope)
    (hnot : ¬s.Spared t {url} scope) : ∃ user scope, (s.putRoute t url row call).Lists user scope ∧
      scope ≠ "*" ∧ ¬(s.putRoute t url row call).BackedAt user scope := by
  refine exists_not_backedAt hnot (fun _ => id) ?_ ?_ ?_
  · rintro url' ⟨hscope, hstays⟩
    have hne : url' ≠ url := by
      rintro rfl
      exact hrow (hstays t row (pending_putRoute.trans (if_pos ⟨rfl, rfl⟩)))
    refine ⟨hne, hscope, fun t' row' hpending => hstays t' row' ?_⟩
    exact pending_putRoute.trans ((if_neg fun heq => hne heq.2).trans hpending)
  · exact fun t' user ht => covers_of_undisturbed (undisturbed_putRoute ht) rfl rfl
  · rintro user ⟨-, hstrips⟩
    have hcalls : (s.putRoute t url row call).calls t = call := Function.update_self _ _ _
    rw [hcalls] at hstrips
    rcases hcall with rfl | ⟨scope', rfl, hne⟩
    · obtain ⟨body, hpending, -⟩ := hstrips
      exact absurd ((h.pending_policy hbefore hpolicies user).symm.trans hpending) nofun
    · exact hne hstrips

/-- A step that does not leave the scopes backed leaves one with neither a route that stays nor a
transaction that takes it from its policy. -/
theorem exists_not_backedAt_of_step {a : ScopeAct τ υ} (h : s.ScopeInv settings)
    (hnot : ¬s.KeepsBacking a) (hstep : ScopeStep settings s a s') :
    ∃ user scope, s'.Lists user scope ∧ scope ≠ "*" ∧ ¬s'.BackedAt user scope := by
  cases hstep with
  | start | commit | abort => exact absurd trivial hnot
  | @step t s' hstep =>
    have hkeeps : ¬s.KeepsCall t (s.calls t) := hnot
    generalize hcall : s.calls t = call at hstep hkeeps
    cases hstep with
    | upsert hfree =>
      unfold ScopeState.KeepsCall at hkeeps
      push Not at hkeeps
      obtain ⟨scope, -, hne, hnot⟩ := hkeeps
      refine exists_not_backedAt_putRoute h hcall rfl (fun heq => ?_) (.inl rfl) hnot
      exact hne (Option.some.inj heq).symm
    | @remove url read row hfree hrow =>
      unfold ScopeState.KeepsCall at hkeeps
      push Not at hkeeps
      obtain ⟨scope, -, hne, hnot⟩ := hkeeps
      refine exists_not_backedAt_putRoute h hcall rfl nofun ?_ hnot
      split_ifs
      · exact .inl rfl
      · exact .inr ⟨read, rfl, hne.symm⟩
    | removeNone hrow =>
      unfold ScopeState.KeepsCall at hkeeps
      push Not at hkeeps
      obtain ⟨scope, hscope, -⟩ := hkeeps
      rw [(h.view_route hcall rfl _).symm.trans hrow] at hscope
      cases hscope
    | check hfound =>
      unfold ScopeState.KeepsCall at hkeeps
      push Not at hkeeps
      refine exists_not_backedAt hkeeps.2 (fun _ => id) (fun url hkept => ⟨id, hkept⟩)
        (fun t' user ht => covers_of_undisturbed (undisturbed_set ht) rfl rfl) ?_
      rintro user ⟨-, hstrips⟩
      have hcalls : (s.set t .done).calls t = .done := Function.update_self _ _ _
      rw [hcalls] at hstrips
      obtain ⟨body, hpending, -⟩ := hstrips
      exact absurd ((h.pending_policy hcall rfl user).symm.trans hpending) nofun
    | checkNone hnone =>
      unfold ScopeState.KeepsCall at hkeeps
      push Not at hkeeps
      obtain ⟨⟨url', hfound⟩, -⟩ := hkeeps
      exact (hnone url' hfound).elim
    | _ => exact absurd trivial hkeeps

/-- As long as no step takes a scope's last route without the cascade, every concrete scope of a
policy has a route whenever no transaction is in flight. A step that does so leaves a scope with
nothing behind it. -/
theorem backed_of_reachable (settings : Settings) :
    (∀ s : ScopeState τ υ,
      ((scopeTransactions τ υ settings).when ScopeState.KeepsBacking).Reachable s →
        (∀ t, s.calls t = .idle) → s.Backed settings) ∧
    ∀ (s : ScopeState τ υ) (a : ScopeAct τ υ) (s' : ScopeState τ υ),
      ((scopeTransactions τ υ settings).when ScopeState.KeepsBacking).Reachable s →
        ScopeStep settings s a s' → (s.KeepsBacking a ↔
          ∀ user scope, s'.Lists user scope → scope ≠ "*" → s'.BackedAt user scope) := by
  have hinv : ∀ s : ScopeState τ υ,
      ((scopeTransactions τ υ settings).when ScopeState.KeepsBacking).Reachable s →
        s.ScopeInv settings := by
    intro s h
    refine h.invariant ?_ ?_
    · exact fun s hinit => .of_init hinit
    · exact fun s a s' hs hstep => hs.step hstep.1 hstep.2
  constructor
  · intro s h hidle user scope hlists hne
    obtain ⟨hpublic, ⟨url, hkept⟩ | ⟨t, hcovers⟩⟩ := (hinv s h).backed user scope hlists hne
    · obtain ⟨row, hrow, hscope⟩ := Option.map_eq_some_iff.mp hkept.1
      exact ⟨hpublic, url, row, hrow, hscope⟩
    · exact (strips_of_covers hcovers (hidle t)).elim
  · intro s a s' h hstep
    constructor
    · exact fun hkeeps user scope hlists hne =>
        (((hinv s h).step hkeeps hstep).backed user scope hlists hne).2
    · intro hbacked
      by_contra hnot
      obtain ⟨user, scope, hlists, hne, h'⟩ := exists_not_backedAt_of_step (hinv s h) hnot hstep
      exact h' (hbacked user scope hlists hne)

end

/-! ## Runs on small tables -/

/-- Tables on which no transaction is in flight. -/
def settledTables (routes : Path → Option RouteBinding)
    (policies : String → Option (PolicyBody String)) : ScopeState Bool String where
  routes := ⟨routes, fun _ _ => none⟩
  shared _ _ := False
  policies := ⟨policies, fun _ _ => none⟩
  calls _ := .idle

variable {routes : Path → Option RouteBinding} {policies : String → Option (PolicyBody String)}

theorem finish_settled {s : ScopeState Bool String} (hcalls : s.calls false = .idle)
    (hshared : s.shared false = fun _ => False) (hroutes : s.routes.pending false = fun _ => none)
    (hpolicies : s.policies.pending false = fun _ => none) :
    s.finish true (s.routes.commit true) (s.policies.commit true) =
      settledTables (s.routes.view true) (s.policies.view true) := by
  unfold ScopeState.finish settledTables Rows.commit
  congr 1
  · congr 1
    funext t
    cases t
    · exact hroutes
    · rfl
  · funext t
    cases t
    · exact hshared
    · rfl
  · congr 1
    funext t
    cases t
    · exact hpolicies
    · rfl
  · funext t
    cases t
    · exact hcalls
    · rfl

theorem view_write_settled {κ ρ : Type} [DecidableEq κ] (rows : κ → Option ρ) (k : κ)
    (row : Option ρ) : ((⟨rows, fun _ _ => none⟩ : Rows Bool κ ρ).write true k row).view true =
      Function.update rows k row := by
  funext k'
  rw [Rows.view_write]
  by_cases hk : k' = k
  · subst hk
    simp
  · simp [hk, Rows.view]

theorem view_removed (routes : Path → Option RouteBinding) {a b : Path} (ha : url ≠ a)
    (hb : url ≠ b) :
    ((((⟨routes, fun _ _ => none⟩ : Rows Bool Path RouteBinding).write true a none).write false b
      none).commit true).view false url = routes url := by
  simp only [Rows.view_commit, Rows.write_pending, Rows.view_write, ha, hb, and_false, if_false,
    true_or, if_true]
  rfl

/-- A new url is mapped to a scope while nothing else is in flight. -/
theorem reachable_add (url : Path) (scope : String) (hurl : normalizeUrl url = url)
    (hnew : routes url = none) (h : ((scopeTransactions Bool String {}).when
      ScopeState.KeepsBacking).Reachable (settledTables routes policies)) :
    ((scopeTransactions Bool String {}).when ScopeState.KeepsBacking).Reachable
      (settledTables (Function.update routes url (some ⟨scope, none⟩)) policies) := by
  have hadding := h.take (.start true (.addUrlToScope scope url none)) ⟨trivial, .start rfl rfl⟩
  rw [hurl] at hadding
  have hkeeps : ∀ s : ScopeState Bool String, ∀ scope' ∈ (routes url).map RouteBinding.scopeId,
      scope' ≠ scope → s.Spared true {url} scope' := by
    rw [hnew]
    exact fun _ _ hmem => by cases hmem
  have hadded := hadding.take (.step true)
    ⟨hkeeps _, .step (.upsert ⟨fun _ _ => rfl, fun _ _ => id⟩)⟩
  have hend := hadded.take (.commit true) ⟨trivial, .commit rfl⟩
  rw [finish_settled rfl rfl rfl rfl] at hend
  rw [← view_write_settled]
  exact hend

/-- `/a` is a route of the scope, and no other url is. -/
def oneRoute : Path → Option RouteBinding :=
  Function.update (fun _ => none) ['/', 'a'] (some ⟨"s", none⟩)

def onePolicy : PolicyBody String := createPolicy ["s"] none none none none

theorem eq_of_scopeOf {s : ScopeState Bool String} (hview : s.routes.view true = oneRoute)
    (h : s.scopeOf true url = some scope) : url = ['/', 'a'] := by
  unfold ScopeState.scopeOf at h
  rw [hview] at h
  unfold oneRoute at h
  by_contra hurl
  rw [Function.update_of_ne hurl] at h
  cases h

/-- A policy is created with the scope of the one route. -/
theorem reachable_create (h : ((scopeTransactions Bool String {}).when
      ScopeState.KeepsBacking).Reachable (settledTables oneRoute fun _ => none)) :
    ((scopeTransactions Bool String {}).when ScopeState.KeepsBacking).Reachable
      (settledTables oneRoute (Function.update (fun _ => none) "u" (some onePolicy))) := by
  have hcall : ScopeRequest.call {} (.createPolicy "u" ["s"] none none none none) =
      some (ScopeCall.validating (.create "u" onePolicy)) := rfl
  have hscope : (settledTables oneRoute fun _ => none).scopeOf true ['/', 'a'] = some "s" := rfl
  have hasked : (settledTables oneRoute fun _ => none).Asked {} true (.create "u" onePolicy)
      ['/', 'a'] := ⟨"s", hscope, by decide +kernel, by decide⟩
  have hlast : ∀ url, url ∉ {url | (settledTables oneRoute fun _ => none).Asked {} true
      (.create "u" onePolicy) url} \ {['/', 'a']} := by
    rintro url ⟨⟨scope, hmem, -⟩, hne⟩
    exact hne (eq_of_scopeOf rfl hmem)
  have hlive : ∀ scope ∈ (PolicyGrant.create "u" onePolicy).concrete,
      scope ∈ insert "s" (∅ : Set String) := by
    intro scope hmem
    have hs : scope = "s" := by simpa [PolicyGrant.concrete, onePolicy, createPolicy] using hmem
    exact .inl hs
  have hstarted := h.take (.start true (.createPolicy "u" ["s"] none none none none))
    ⟨trivial, .start rfl hcall⟩
  have hread := hstarted.take (.step true) ⟨trivial, .step .validate⟩
  have hlocked := hread.take (.step true)
    ⟨trivial, .step (.lockRow hasked (fun _ _ => rfl) hscope hasked)⟩
  have hvalid := hlocked.take (.step true) ⟨trivial, .step (.validated hlast hlive)⟩
  have hwritten := hvalid.take (.step true) ⟨trivial, .step (.insert (fun _ _ => rfl) rfl)⟩
  have hend := hwritten.take (.commit true) ⟨trivial, .commit rfl⟩
  rw [finish_settled rfl rfl rfl rfl] at hend
  rw [← view_write_settled]
  exact hend

/-- A url is mapped to a scope, and a policy is created with it. -/
theorem reachable_granted : ((scopeTransactions Bool String {}).when
    ScopeState.KeepsBacking).Reachable
      (settledTables oneRoute (Function.update (fun _ => none) "u" (some onePolicy))) := by
  have hempty : ((scopeTransactions Bool String {}).when ScopeState.KeepsBacking).Reachable
      (settledTables (fun _ => none) fun _ => none) := .of_init rfl
  exact reachable_create (reachable_add ['/', 'a'] "s" (by decide) rfl hempty)

theorem granted_backed : ∃ s : ScopeState Bool String, s.Lists "u" "s" ∧ s.Backed {} :=
  ⟨_, ⟨onePolicy, rfl, List.mem_singleton_self "s"⟩,
    (backed_of_reachable {}).1 _ reachable_granted fun _ => rfl⟩

theorem not_backed {s : ScopeState Bool String} (hlists : s.Lists "u" "s")
    (hnone : ∀ url, (s.routes.committed url).map RouteBinding.scopeId ≠ some "s") :
    ¬s.Backed {} := by
  intro h
  obtain ⟨-, url, row, hrow, hscope⟩ := h "u" "s" hlists (by decide)
  refine hnone url ?_
  rw [hrow]
  exact congrArg some hscope

/-- The last url of a scope is mapped to another scope, or the last two urls of a scope are removed
at the same time. -/
theorem scope_unbacked :
    (∃ s : ScopeState Bool String, (scopeTransactions Bool String {}).Reachable s ∧
      (∀ t, s.calls t = .idle) ∧ s.routes.committed ['/', 'a'] = some ⟨"t", none⟩ ∧
        ¬s.Backed {}) ∧
    ∃ s : ScopeState Bool String, (scopeTransactions Bool String {}).Reachable s ∧
      (∀ t, s.calls t = .idle) ∧ (∀ url, s.routes.committed url = none) ∧ ¬s.Backed {} := by
  constructor
  · have hadding := reachable_granted.of_when.take
      (.start true (.addUrlToScope "t" ['/', 'a'] none)) (.start rfl rfl)
    have hadded := hadding.take (.step true) (.step (.upsert ⟨fun _ _ => rfl, fun _ _ => id⟩))
    have hend := hadded.take (.commit true) (.commit rfl)
    refine ⟨_, hend, fun t => by cases t <;> rfl, rfl, ?_⟩
    refine not_backed ⟨onePolicy, rfl, List.mem_singleton_self "s"⟩ fun url => ?_
    show ((Rows.write ⟨oneRoute, fun _ _ => none⟩ true ['/', 'a'] _).view true url).map _ ≠ _
    rw [view_write_settled]
    by_cases hurl : url = ['/', 'a']
    · subst hurl
      decide +kernel
    · rw [Function.update_of_ne hurl]
      unfold oneRoute
      rw [Function.update_of_ne hurl]
      nofun
  · have hfirst := (reachable_add ['/', 'b'] "s" (by decide) rfl reachable_granted).of_when
    have hstarted := hfirst.take (.start true (.removeUrlFromScope ['/', 'a'])) (.start rfl rfl)
    have hstarted' := hstarted.take (.start false (.removeUrlFromScope ['/', 'b'])) (.start rfl rfl)
    have hfound := hstarted'.take (.step true) (.step (.find rfl))
    have hfound' := hfound.take (.step false) (.step (.find rfl))
    have hremoved := hfound'.take (.step true)
      (.step (.remove ⟨fun _ _ => rfl, fun _ _ => id⟩ rfl))
    have hremoved' := hremoved.take (.step false)
      (.step (.remove ⟨fun | true, _ => rfl | false, h => absurd rfl h, fun _ _ => id⟩ rfl))
    -- each of the two sees the row that the other one is deleting
    have hchecked := hremoved'.take (.step true)
      (.step (.check (show ScopeState.scopeOf _ true ['/', 'b'] = some "s" from rfl)))
    have hchecked' := hchecked.take (.step false)
      (.step (.check (show ScopeState.scopeOf _ false ['/', 'a'] = some "s" from rfl)))
    have hend := (hchecked'.take (.commit true) (.commit rfl)).take (.commit false) (.commit rfl)
    have hnone : ∀ url, ((((⟨Function.update oneRoute ['/', 'b'] (some ⟨"s", none⟩),
        fun _ _ => none⟩ : Rows Bool Path RouteBinding).write true ['/', 'a'] none).write false
          ['/', 'b'] none).commit true).view false url = none := by
      intro url
      by_cases ha : url = ['/', 'a']
      · subst ha
        decide +kernel
      by_cases hb : url = ['/', 'b']
      · subst hb
        decide +kernel
      rw [view_removed _ ha hb, Function.update_of_ne hb]
      exact Function.update_of_ne ha _ _
    refine ⟨_, hend, fun t => by cases t <;> rfl, hnone, ?_⟩
    refine not_backed ⟨onePolicy, rfl, List.mem_singleton_self "s"⟩ fun url hscope => ?_
    have hrow := (congrArg (Option.map RouteBinding.scopeId) (hnone url)).symm.trans hscope
    cases hrow

end TaiSkeleton.AccessControl
