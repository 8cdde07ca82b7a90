import Mathlib.Data.Fintype.Basic
import TaiSkeleton.Connectors.Resolver

/-!
# Rotations of the refresh token

The record holds the last pair that the provider has issued once no call is under way, as long as
no call writes a failure over a ciphertext that another call has refreshed from, or still refreshes
from. Two calls that start from one ciphertext can commit the failure of the one before the pair
that the other has received.
-/

namespace TaiSkeleton.Connectors

open Lib

/-- A call that has received a pair and has not persisted it. -/
def RefreshStage.holdsPair : RefreshStage → Bool
  | .persisting _ _ .rotated => true
  | _ => false

/-- A call that refreshes from a ciphertext. -/
def RefreshStage.refreshesFrom (started : ℕ) : RefreshStage → Bool
  | .refreshing _ started' _ => decide (started' = started)
  | _ => false

namespace Connection

variable {ι : Type}

/-! ## The condition -/

/-- A failure is written over the newest ciphertext only when no other call has a pair that it has
received, and, where the token may still be good, none refreshes from that ciphertext. -/
def CommitKeeps (s : Connection ι) : RefreshStage → Prop
  | .persisting _ started .rejected =>
    started = s.newest → ∀ other, (s.calls other).holdsPair = false
  | .persisting _ started .failing =>
    started = s.newest → ∀ other, (s.calls other).holdsPair = false ∧
      (s.calls other).refreshesFrom started = false
  | _ => True

/-- A write keeps the pairs of the others, each answer of the provider arrives, and a pair that has
been received is persisted without an error. -/
def KeepsPair (s : Connection ι) : RefreshAct ι → Prop
  | .answer _ answer => answer ≠ .lost
  | .persist call => s.CommitKeeps (s.calls call)
  | .persistRaises call => (s.calls call).holdsPair = false
  | _ => True

instance [Fintype ι] (s : Connection ι) (stage : RefreshStage) :
    Decidable (s.CommitKeeps stage) := by
  unfold CommitKeeps
  split <;> infer_instance

instance [Fintype ι] (s : Connection ι) (a : RefreshAct ι) : Decidable (s.KeepsPair a) := by
  cases a <;> unfold KeepsPair <;> infer_instance

/-! ## The invariant -/

/-- A record with the tokens of a ciphertext. -/
def SameTokens (s : Connection ι) (record : ConnectionRecord) (started : ℕ) : Prop :=
  started ≤ s.newest ∧ record.accessToken = (s.records started).accessToken ∧
    record.refreshToken = (s.records started).refreshToken

/-- A record whose refresh token the provider has consumed. -/
def Consumed (s : Connection ι) (record : ConnectionRecord) : Prop :=
  ∀ token ∈ record.refreshToken, token < s.issued

/-- The tokens of the last pair. -/
def HasPair (s : Connection ι) (record : ConnectionRecord) : Prop :=
  record.accessToken = some s.issued ∧ record.refreshToken = some s.issued

/-- What holds of a call: it refreshes with the tokens of its ciphertext, which are consumed when
that is not the newest; it has the last pair, from the newest ciphertext; or its failure is that of
the tokens of its ciphertext. -/
def StageInv (s : Connection ι) : RefreshStage → Prop
  | .refreshing record started _ =>
    s.SameTokens record started ∧ (started ≠ s.newest → s.Consumed record)
  | .persisting record started .rotated =>
    started = s.newest ∧ s.HasPair record ∧ record.authHealthState ≠ .reconnectRequired ∧
      s.Consumed s.stored
  | .persisting record started .rejected =>
    s.SameTokens record started ∧ record.refreshToken ≠ none ∧ s.Consumed record
  | .persisting record started .failing =>
    s.SameTokens record started ∧ record.authHealthState ≠ .reconnectRequired
  | _ => True

structure Inv (s : Connection ι) : Prop where
  state : s.stored.authHealthState ≠ .reconnectRequired
  pair : (∀ call, (s.calls call).holdsPair = false) → s.HasPair s.stored
  known : ∀ token ∈ s.stored.refreshToken, token ≤ s.issued
  holder : ∀ call other, (s.calls call).holdsPair = true → (s.calls other).holdsPair = true →
    call = other
  calls : ∀ call, s.StageInv (s.calls call)

section

variable [DecidableEq ι] {s s' : Connection ι} {a : RefreshAct ι} {call : ι}
  {stage : RefreshStage} {record : ConnectionRecord} {started attempts : ℕ}

/-- Of the calls, only those that hold a pair keep the record from holding it. -/
theorem Inv.goto (h : s.Inv) (hstage : s.StageInv stage) (hidle : stage.holdsPair = false)
    (hcall : (s.calls call).holdsPair = false) : (s.goto call stage).Inv := by
  have hholds : ∀ other, ((s.goto call stage).calls other).holdsPair =
      (s.calls other).holdsPair := by
    intro other
    show (Function.update s.calls call stage other).holdsPair = _
    by_cases hother : other = call
    · subst hother
      rw [Function.update_self, hidle, hcall]
    · rw [Function.update_of_ne hother]
  refine ⟨h.state, fun hnone => ?_, h.known, fun c other hc hother => ?_, fun other => ?_⟩
  · exact h.pair fun other => (hholds other).symm.trans (hnone other)
  · rw [hholds] at hc hother
    exact h.holder c other hc hother
  · show s.StageInv (Function.update s.calls call stage other)
    by_cases hother : other = call
    · subst hother
      rw [Function.update_self]
      exact hstage
    · rw [Function.update_of_ne hother]
      exact h.calls other

/-- What holds of a call without a pair is kept where the tokens of the ciphertexts are. -/
theorem StageInv.frame (h : s.StageInv stage) (hidle : stage.holdsPair = false)
    (hsame : ∀ record started, s.SameTokens record started → s'.SameTokens record started)
    (hconsumed : ∀ record, s.Consumed record → s'.Consumed record)
    (hstale : ∀ record started attempts, stage = .refreshing record started attempts →
      started ≠ s'.newest → s'.Consumed record) : s'.StageInv stage := by
  cases stage with
  | refreshing record started attempts =>
    exact ⟨hsame record started h.1, hstale record started attempts rfl⟩
  | persisting record started persist =>
    cases persist with
    | rotated => cases hidle
    | rejected => exact ⟨hsame record started h.1, h.2.1, hconsumed record h.2.2⟩
    | failing => exact ⟨hsame record started h.1, h.2⟩
  | idle => trivial
  | locking _ => trivial
  | rereading => trivial
  | «over» _ => trivial

theorem SameTokens.commit (h : s.SameTokens record started) (written : ConnectionRecord) :
    (s.commit written).SameTokens record started := by
  obtain ⟨hle, htokens⟩ := h
  refine ⟨Nat.le_succ_of_le hle, ?_⟩
  show record.accessToken = (Function.update s.records (s.newest + 1) written started).accessToken ∧
    record.refreshToken = (Function.update s.records (s.newest + 1) written started).refreshToken
  rw [Function.update_of_ne (by omega)]
  exact htokens

/-- A record with the last pair is written, no other call holding it, where what other calls refresh
with from the ciphertext before is consumed. -/
theorem Inv.commit (h : s.Inv) (hpair : s.HasPair record)
    (hstate : record.authHealthState ≠ .reconnectRequired)
    (hholds : ∀ other, other ≠ call → (s.calls other).holdsPair = false)
    (hconsumed : ∀ other, other ≠ call → ∀ record' attempts,
      s.calls other = .refreshing record' s.newest attempts → s.Consumed record')
    (outcome : Outcome) : ((s.commit record).goto call (.over outcome)).Inv := by
  have hstored : ((s.commit record).goto call (.over outcome)).stored = record := by
    show Function.update s.records (s.newest + 1) record (s.newest + 1) = record
    rw [Function.update_self]
  have hcalls : ∀ other, ((s.commit record).goto call (.over outcome)).calls other =
      if other = call then .over outcome else s.calls other := by
    intro other
    exact Function.update_apply s.calls call (.over outcome) other
  have hnone : ∀ other,
      (((s.commit record).goto call (.over outcome)).calls other).holdsPair = false := by
    intro other
    rw [hcalls]
    split_ifs with hother
    · rfl
    · exact hholds other hother
  refine ⟨?_, fun _ => ?_, ?_, fun c other hc _ => ?_, fun other => ?_⟩
  · rw [hstored]
    exact hstate
  · rw [hstored]
    exact hpair
  · rw [hstored]
    intro token htoken
    obtain rfl := Option.some.inj (hpair.2.symm.trans htoken)
    exact Nat.le_refl _
  · exact absurd ((hnone c).symm.trans hc) Bool.false_ne_true
  · rw [hcalls]
    split_ifs with hother
    · trivial
    · have hold := h.calls other
      refine hold.frame (hholds other hother) (fun _ _ hsame => hsame.commit record)
        (fun _ hrecord => hrecord) fun record' started' attempts' hstage _ => ?_
      by_cases hnewest : started' = s.newest
      · subst hnewest
        exact hconsumed other hother record' attempts' hstage
      · rw [hstage] at hold
        exact hold.2 hnewest

/-- A pair is issued for the token of the newest ciphertext, which no call holds a pair for. -/
theorem Inv.issued (h : s.Inv) (hcall : s.calls call = .refreshing record started attempts)
    (htoken : record.refreshToken = some s.issued) (expiresAt : ℤ)
    (grantedScopes : List String) :
    ({ s with issued := s.issued + 1 }.goto call (.persisting
      (record.rotate (s.issued + 1) expiresAt grantedScopes) started .rotated)).Inv := by
  have hinv := h.calls call
  rw [hcall] at hinv
  obtain ⟨⟨-, -, hsame⟩, hstale⟩ := hinv
  have hnewest : started = s.newest := by
    by_contra hne
    exact Nat.lt_irrefl _ (hstale hne s.issued htoken)
  have hstored : s.stored.refreshToken = some s.issued := by
    rw [← htoken, hsame, hnewest]
    rfl
  have hnone : ∀ other, (s.calls other).holdsPair = false := by
    intro other
    have hother := h.calls other
    cases hstage : s.calls other with
    | persisting record' started' persist =>
      cases persist with
      | rotated =>
        rw [hstage] at hother
        exact absurd (hother.2.2.2 s.issued hstored) (Nat.lt_irrefl _)
      | rejected => rfl
      | failing => rfl
    | idle => rfl
    | locking _ => rfl
    | refreshing _ _ _ => rfl
    | rereading => rfl
    | «over» _ => rfl
  have hcalls : ∀ other, ({ s with issued := s.issued + 1 }.goto call (.persisting
      (record.rotate (s.issued + 1) expiresAt grantedScopes) started .rotated) :
      Connection ι).calls other = if other = call then .persisting
        (record.rotate (s.issued + 1) expiresAt grantedScopes) started .rotated
      else s.calls other :=
    fun other => Function.update_apply s.calls call _ other
  have honly : ∀ other, (({ s with issued := s.issued + 1 }.goto call (.persisting
      (record.rotate (s.issued + 1) expiresAt grantedScopes) started .rotated) :
      Connection ι).calls other).holdsPair = true → other = call := by
    intro other hother
    rw [hcalls] at hother
    split_ifs at hother with heq
    · exact heq
    · rw [hnone other] at hother
      cases hother
  have hmono : ∀ record', s.Consumed record' →
      ({ s with issued := s.issued + 1 } : Connection ι).Consumed record' :=
    fun record' hrecord token hmem => Nat.lt_succ_of_lt (hrecord token hmem)
  refine ⟨h.state, fun hnone' => ?_, fun token hmem => Nat.le_succ_of_le (h.known token hmem),
    fun c other hc hother => ?_, fun other => ?_⟩
  · have hself := hnone' call
    rw [hcalls, if_pos rfl] at hself
    cases hself
  · exact (honly c hc).trans (honly other hother).symm
  · rw [hcalls]
    split_ifs with heq
    · refine ⟨hnewest, ⟨rfl, rfl⟩, by simp [ConnectionRecord.rotate], ?_⟩
      exact fun token hmem => Nat.lt_succ_of_le (h.known token hmem)
    · have hother := h.calls other
      refine hother.frame (hnone other) (fun _ _ hsame => hsame) hmono
        fun record' started' attempts' hstage hne => ?_
      rw [hstage] at hother
      exact hmono record' (hother.2 hne)

theorem stageInv_retry (attempts : ℕ) (hsame : s.SameTokens record started)
    (hstale : started ≠ s.newest → s.Consumed record) :
    s.StageInv (retry record started attempts) ∧
      (retry record started attempts).holdsPair = false := by
  unfold retry
  split_ifs
  · exact ⟨⟨hsame, by simp⟩, rfl⟩
  · exact ⟨⟨hsame, hstale⟩, rfl⟩

theorem stageInv_startRefresh :
    s.StageInv (startRefresh s.stored s.newest) ∧
      (startRefresh s.stored s.newest).holdsPair = false := by
  unfold startRefresh
  split
  · exact ⟨trivial, rfl⟩
  · exact ⟨⟨⟨Nat.le_refl _, rfl, rfl⟩, fun hne => absurd rfl hne⟩, rfl⟩

/-- Whether a persist step has completed is not a part of the invariant. -/
theorem Inv.completed (h : s.Inv) (persisted : Bool) :
    ({ s with persisted } : Connection ι).Inv :=
  ⟨h.state, h.pair, h.known, h.holder, h.calls⟩

/-- A failure that is committed leaves the last pair in place, and only where it is not one of a
consumed token. -/
theorem Inv.persist (h : s.Inv) {persist : Persist}
    (hcall : s.calls call = .persisting record s.newest persist)
    (hkeeps : s.KeepsPair (.persist call)) (outcome : Outcome) :
    ((s.commit record).goto call (.over outcome)).Inv := by
  have hinv := h.calls call
  rw [hcall] at hinv
  simp only [KeepsPair, hcall, CommitKeeps] at hkeeps
  cases persist with
  | rotated =>
    obtain ⟨-, hpair, hstate, hconsumed⟩ := hinv
    have hholds : (s.calls call).holdsPair = true := by
      rw [hcall]
      rfl
    refine h.commit hpair hstate (fun other hother => ?_) (fun other _ record' _ hstage => ?_)
      outcome
    · by_contra hother'
      exact hother (h.holder other call ((Bool.not_eq_false _).mp hother') hholds)
    · have hother := h.calls other
      rw [hstage] at hother
      intro token htoken
      refine hconsumed token ?_
      rw [hother.1.2.2] at htoken
      exact htoken
  | rejected =>
    obtain ⟨⟨-, -, hsame⟩, -, hconsumed⟩ := hinv
    have hpair := h.pair (hkeeps rfl)
    exact absurd (hconsumed s.issued (hsame.trans hpair.2)) (Nat.lt_irrefl _)
  | failing =>
    obtain ⟨⟨-, haccess, hrefresh⟩, hstate⟩ := hinv
    have hpair := h.pair fun other => (hkeeps rfl other).1
    refine h.commit ⟨haccess.trans hpair.1, hrefresh.trans hpair.2⟩ hstate
      (fun other _ => (hkeeps rfl other).1) (fun other _ record' attempts' hstage => ?_) outcome
    have hother := (hkeeps rfl other).2
    rw [hstage] at hother
    exact absurd (decide_eq_true rfl) (Bool.eq_false_iff.mp hother)

theorem Inv.next (h : s.Inv) (hkeeps : s.KeepsPair a) (hnext : s.next a = some s') : s'.Inv := by
  cases a with
  | resolve call now cooling =>
    simp only [Connection.next] at hnext
    split at hnext
    · next hidle =>
      have hcall : (s.calls call).holdsPair = false := by
        rw [hidle]
        rfl
      split at hnext
      · obtain rfl := Option.some.inj hnext
        exact h.goto trivial rfl hcall
      · obtain rfl := Option.some.inj hnext
        exact h.goto trivial rfl hcall
    · cases hnext
  | force call failedAccessToken =>
    simp only [Connection.next] at hnext
    split at hnext
    · next hidle =>
      obtain rfl := Option.some.inj hnext
      refine h.goto trivial rfl ?_
      rw [hidle]
      rfl
    · cases hnext
  | enter call now cooling =>
    simp only [Connection.next] at hnext
    split at hnext
    · next kind hlocking =>
      have hcall : (s.calls call).holdsPair = false := by
        rw [hlocking]
        rfl
      split at hnext
      · obtain rfl := Option.some.inj hnext
        exact h.goto trivial rfl hcall
      · obtain rfl := Option.some.inj hnext
        exact h.goto stageInv_startRefresh.1 stageInv_startRefresh.2 hcall
    · cases hnext
  | answer call answer =>
    simp only [Connection.next] at hnext
    split at hnext
    · next record started attempts hrefreshing =>
      have hinv := h.calls call
      rw [hrefreshing] at hinv
      obtain ⟨hsame, hstale⟩ := hinv
      have hcall : (s.calls call).holdsPair = false := by
        rw [hrefreshing]
        rfl
      split at hnext
      · obtain ⟨htoken, hnext⟩ := Option.ite_none_right_eq_some.mp hnext
        obtain rfl := Option.some.inj hnext
        exact h.issued hrefreshing htoken _ _
      · obtain ⟨hany, hnext⟩ := Option.ite_none_right_eq_some.mp hnext
        obtain rfl := Option.some.inj hnext
        refine h.goto ⟨hsame, ?_, ?_⟩ rfl hcall
        · rintro hnone
          have hnone : record.refreshToken = none := hnone
          rw [hnone] at hany
          cases hany
        · intro token htoken
          have htoken : record.refreshToken = some token := htoken
          rw [htoken] at hany
          exact of_decide_eq_true hany
      · obtain rfl := Option.some.inj hnext
        obtain ⟨hretry, hidle⟩ := stageInv_retry attempts hsame hstale
        exact h.goto hretry hidle hcall
      · exact absurd rfl hkeeps
    · cases hnext
  | persist call =>
    simp only [Connection.next] at hnext
    split at hnext
    · next record started persist hpersisting =>
      have hcompleted := h.completed (s.persisted || decide (persist = Persist.rotated))
      split_ifs at hnext with hnewest
      · subst hnewest
        obtain rfl := Option.some.inj hnext
        exact hcompleted.persist hpersisting hkeeps _
      · obtain rfl := Option.some.inj hnext
        refine hcompleted.goto trivial rfl ?_
        have hinv := h.calls call
        show (s.calls call).holdsPair = false
        rw [hpersisting] at hinv ⊢
        cases persist with
        | rotated => exact absurd hinv.1 hnewest
        | rejected => rfl
        | failing => rfl
    · cases hnext
  | persistRaises call =>
    simp only [Connection.next] at hnext
    split at hnext
    · obtain rfl := Option.some.inj hnext
      exact h.goto trivial rfl hkeeps
    · cases hnext
  | reread call =>
    simp only [Connection.next] at hnext
    split at hnext
    · next hrereading =>
      obtain rfl := Option.some.inj hnext
      refine h.goto trivial rfl ?_
      rw [hrereading]
      rfl
    · cases hnext

end

end Connection

/-! ## Runs -/

variable {ι : Type} [DecidableEq ι]

/-- No call is under way. -/
def Connection.Quiet (s : Connection ι) : Prop :=
  ∀ call, s.calls call = .idle ∨ ∃ outcome, s.calls call = .over outcome

theorem inv_of_reachable {s : Connection ι}
    (h : ((resolver ι).when Connection.KeepsPair).Reachable s) : s.Inv := by
  refine h.invariant ?_ ?_
  · rintro s ⟨hidle, -, haccess, hrefresh, hstate⟩
    refine ⟨hstate, fun _ => ⟨haccess, hrefresh⟩, ?_, fun call _ hholds => ?_, fun call => ?_⟩
    · intro token htoken
      obtain rfl := Option.some.inj (hrefresh.symm.trans htoken)
      exact Nat.le_refl _
    · rw [hidle] at hholds
      cases hholds
    · rw [hidle]
      trivial
  · rintro s a s' hinv ⟨hkeeps, hnext⟩
    exact hinv.next hkeeps hnext

/-- A connection with the first pair of the provider, and its token expired. -/
def expiredConnection : Connection (Fin 2) where
  records _ := ⟨some 0, some 0, some 0, .healthy, []⟩

/-- A call refreshes, and persists the pair. -/
def refreshActs : List (RefreshAct (Fin 2)) :=
  [.resolve 0 0 false, .enter 0 0 false, .answer 0 .transient,
    .answer 0 (.issues 3600000000 []), .persist 0]

/-- Two calls refresh with one token under an expired lock, and the one that the provider rejects
persists first. -/
def rejectedFirstActs : List (RefreshAct (Fin 2)) :=
  [.resolve 0 0 false, .resolve 1 0 false, .enter 0 0 false, .enter 1 0 false,
    .answer 0 (.issues 3600000000 []), .answer 1 .invalidGrant, .persist 1, .persist 0, .reread 0]

/-- A call that used up its retries commits the failure before a slower call has received its
pair. -/
example : (([.resolve 0 0 false, .resolve 1 0 false, .enter 0 0 false, .enter 1 0 false,
    .answer 1 .transient, .answer 1 .transient, .answer 1 .transient, .answer 1 .transient,
    .answer 1 .transient, .persist 1, .answer 0 (.issues 3600000000 []), .persist 0, .reread 0] :
    List (RefreshAct (Fin 2))).foldlM Connection.next expiredConnection).any
      (fun s => decide (s.stored.refreshToken = some 0 ∧ s.issued = 1)) = true := by
  decide +kernel

end TaiSkeleton.Connectors
