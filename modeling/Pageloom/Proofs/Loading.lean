import Pageloom.Proofs.Requests

/-!
# Loaders whose requests have an end

A loader that asks again while its key is neither registered nor under way is asked again
itself, does the same and has no end. Where requests nest finitely this never happens: a
nested request is answered at once, and while a loader is at work the request that it
answers is the only one for its key that can be open. Every move is then allowed, and the
invariant on requests holds at all times, also in the midst of what a loader does.

## Main definitions

* `Pageloom.Loader.NestsFinitely` -- requests have an end
* `Pageloom.Loader.calm` -- no request calls the loader again
* `Pageloom.Loader.nestsFinitely_iff` -- the two agree
* `Pageloom.Session.requests_settle_once` -- what holds of requests at all times
-/

namespace Pageloom

namespace Loader

/-- What a loader does for a key. -/
def actions (loader : Loader) (key : String) : List LoaderAction :=
  (Entries.get? loader key).getD [.wait]

/-- Whether no request that a loader makes calls it again, given whether its key is
registered and whether it is under way. -/
def calm : (registered pending : Bool) → List LoaderAction → Bool
  | _, _, [] => true
  | _, _, .register :: rest => calm true false rest
  | registered, _, .fail :: rest => calm registered false rest
  | _, _, .abort :: _ => true
  | registered, pending, .reload :: rest =>
    (registered || pending) && calm registered pending rest
  | registered, pending, .wait :: rest => calm registered pending rest

/-- On a new page, a loader that is asked for a key leads to finitely many requests:
however deep requests may nest, their number is bounded. -/
def NestsFinitely (loader : Loader) : Prop :=
  ∀ key, ∃ bound, ∀ depth,
    (Session.loadWithin depth key { loader := some loader }).1.loads.size ≤ bound

end Loader

namespace Session

variable {s : Session} {key : String}

theorem answer_of_asks {loader : Loader} (h : s.asks key = true)
    (hloader : s.loader = some loader) :
    s.answer key = loader.actions key := by
  simp [answer, hloader, h, Loader.actions]

theorem answer_of_not_asks (h : s.asks key = false) : s.answer key = [] := by
  unfold answer
  cases s.loader with
  | none => rfl
  | some loader => simp [h]

/-- A request that does not call the loader is answered at once. -/
theorem loadWithin_of_not_asks (h : s.asks key = false) (depth : Nat) :
    loadWithin (depth + 1) key s = s.request key := by
  rw [loadWithin_succ, answer_of_not_asks h]
  rfl

theorem trailWithin_of_not_asks (h : s.asks key = false) (depth : Nat) :
    trailWithin (depth + 1) key s = [.ask key] := by
  simp [trailWithin, answer_of_not_asks h, actTrail, act]

/-! ## What requests do to a key -/

/-- Whether a key is registered, and whether it is under way. -/
structure Status (key : String) (registered pending : Bool) (s : Session) : Prop where
  registered : s.registry.has key = registered
  pending : s.pending.has key = pending

namespace Status

variable {registered pending : Bool}

theorem register (_ : Status key registered pending s) (registration : Registration) :
    Status key true false (s.register key registration) := by
  cases hi : s.pending.get? key with
  | none =>
    rw [register_of_none hi]
    exact ⟨by simp [Entries.has], by simp [Entries.has, hi]⟩
  | some i =>
    rw [register_of_some hi]
    exact ⟨by simp [Entries.has], by simp [Entries.has, Entries.get?_erase]⟩

theorem failLoad (h : Status key registered pending s) (reason : String) :
    Status key registered false (s.failLoad key reason) := by
  cases hi : s.pending.get? key with
  | none =>
    rw [failLoad_of_none hi]
    exact ⟨h.registered, by simp [Entries.has, hi]⟩
  | some i =>
    rw [failLoad_of_some hi]
    exact ⟨h.registered, by simp [Entries.has, Entries.get?_erase]⟩

theorem share (h : Status key registered pending s) (i : Nat) :
    Status key registered pending (s.share i).1 := by
  obtain ⟨shared, hshare⟩ := s.exists_share_eq i
  rw [hshare]
  exact ⟨h.registered, h.pending⟩

theorem not_asks (h : Status key registered pending s) (hor : (registered || pending) = true) :
    s.asks key = false := by
  unfold asks
  rw [h.registered, h.pending]
  cases registered <;> simp_all

end Status

/-- A request that does not call the loader adds at most to the requests and the notices. -/
theorem exists_loadWithin_eq (h : s.asks key = false) (depth : Nat) :
    ∃ loads notices, (loadWithin depth key s).1 = { s with loads, notices } := by
  cases depth with
  | zero => exact ⟨_, _, rfl⟩
  | succ depth =>
    rw [loadWithin_of_not_asks h]
    obtain ⟨-, heq⟩ | ⟨i, -, -, heq⟩ | ⟨-, -, -, heq⟩ | ⟨loader, hregistered, hi, hloader, -⟩ :=
      s.request_cases key
    · exact ⟨_, _, by rw [heq]; rfl⟩
    · exact ⟨_, _, by rw [heq]⟩
    · exact ⟨s.loads.push (.failed (.noLoader key)), s.notices ++ [.noLoader key], by rw [heq]; rfl⟩
    · have hhas := Entries.has_of_none hi
      simp [asks, hregistered, hhas, hloader] at h

theorem exists_request_eq (h : s.asks key = false) :
    ∃ loads notices, (s.request key).1 = { s with loads, notices } :=
  loadWithin_of_not_asks h 0 ▸ exists_loadWithin_eq h 1

theorem Status.loadWithin {registered pending : Bool} (h : Status key registered pending s)
    (hor : (registered || pending) = true) (depth : Nat) :
    Status key registered pending (loadWithin depth key s).1 := by
  obtain ⟨loads, notices, heq⟩ := exists_loadWithin_eq (h.not_asks hor) depth
  rw [heq]
  exact ⟨h.registered, h.pending⟩

theorem status_of_asks (h : s.asks key = true) :
    (∃ loader, s.loader = some loader) ∧ Status key false false s := by
  simp only [asks, Bool.and_eq_true, Bool.not_eq_true'] at h
  exact ⟨Option.isSome_iff_exists.mp h.1.1, h.1.2, h.2⟩

theorem asks_of_status {loader : Loader} (h : Status key false false s)
    (hloader : s.loader = some loader) : s.asks key = true := by
  simp [asks, hloader, h.registered, h.pending]

/-- A request that calls the loader is open and under way for its key. -/
theorem request_of_asks (h : s.asks key = true) :
    s.request key =
      ({ s with
        loads := s.loads.push .pending
        pending := s.pending.set key s.loads.size
        requested := s.requested ++ [key] }, s.loads.size) := by
  obtain ⟨⟨loader, hloader⟩, hstatus⟩ := status_of_asks h
  obtain ⟨hregistered, -⟩ | ⟨i, -, hi, -⟩ | ⟨-, -, hnone, -⟩ | ⟨_, -, -, -, heq⟩ :=
    s.request_cases key
  · rw [hstatus.registered] at hregistered
    cases hregistered
  · have hpending := hstatus.pending
    simp [Entries.has, hi] at hpending
  · rw [hloader] at hnone
    cases hnone
  · exact heq

theorem status_request (h : s.asks key = true) : Status key false true (s.request key).1 := by
  rw [request_of_asks h]
  exact ⟨(status_of_asks h).2.registered, by simp [Entries.has]⟩

/-! ## The loader and the number of requests -/

@[simp] theorem loader_register (registration : Registration) :
    (s.register key registration).loader = s.loader := by
  obtain ⟨_, _, -, heq⟩ := s.exists_register_eq key registration
  rw [heq]

@[simp] theorem loader_failLoad (reason : String) :
    (s.failLoad key reason).loader = s.loader := by
  obtain ⟨_, _, _, -, heq⟩ := s.exists_failLoad_eq key reason
  rw [heq]

@[simp] theorem loader_share (i : Nat) : (s.share i).1.loader = s.loader := by
  obtain ⟨shared, hshare⟩ := s.exists_share_eq i
  rw [hshare]

@[simp] theorem size_loads_register (s : Session) (key : String) (registration : Registration) :
    (s.register key registration).loads.size = s.loads.size := by
  obtain ⟨_, _, hsize, heq⟩ := s.exists_register_eq key registration
  rw [heq, hsize]

@[simp] theorem size_loads_failLoad (s : Session) (key reason : String) :
    (s.failLoad key reason).loads.size = s.loads.size := by
  obtain ⟨_, _, _, hsize, heq⟩ := s.exists_failLoad_eq key reason
  rw [heq, hsize]

@[simp] theorem size_loads_share (i : Nat) : (s.share i).1.loads.size = s.loads.size := by
  obtain ⟨shared, hshare⟩ := s.exists_share_eq i
  rw [hshare]

@[simp] theorem size_loads_abandon (i : Nat) : (s.abandon key i).loads.size = s.loads.size := by
  simp [abandon, remark]

theorem size_loads_le_request : s.loads.size ≤ (s.request key).1.loads.size := by
  obtain ⟨-, heq⟩ | ⟨i, -, -, heq⟩ | ⟨-, -, -, heq⟩ | ⟨_, -, -, -, heq⟩ := s.request_cases key <;>
    simp [heq, addLoad, remark]

theorem size_loads_le_act {reload : String → Session → Session × Nat}
    (hreload : ∀ s : Session, s.loads.size ≤ (reload key s).1.loads.size)
    (actions : List LoaderAction) (s : Session) :
    s.loads.size ≤ (act reload key actions s).1.loads.size := by
  induction actions generalizing s with
  | nil => exact Nat.le_refl _
  | cons action rest ih =>
    cases action with
    | register =>
      rw [act, ← size_loads_register s key loadedFactory]
      exact ih _
    | fail =>
      rw [act, ← size_loads_failLoad s key (failReason key)]
      exact ih _
    | abort => exact Nat.le_refl _
    | wait => exact ih s
    | reload =>
      have hrest := ih ((reload key s).1.share (reload key s).2).1
      rw [size_loads_share] at hrest
      exact Nat.le_trans (hreload s) hrest

theorem size_loads_le_loadWithin (key : String) (depth : Nat) (s : Session) :
    s.loads.size ≤ (loadWithin depth key s).1.loads.size := by
  induction depth generalizing s with
  | zero => simp [loadWithin, addLoad]
  | succ depth ih =>
    rw [loadWithin_succ]
    have hact := size_loads_le_act ih (s.answer key) (s.request key).1
    have hrequest : s.loads.size ≤ (s.request key).1.loads.size := size_loads_le_request
    dsimp only
    split
    · rw [size_loads_abandon]
      exact Nat.le_trans hrequest hact
    · exact Nat.le_trans hrequest hact

/-! ## Loaders that are not calm -/

/-- What a loader does that is not calm leads to a request that calls the loader again. -/
theorem size_loads_act_of_not_calm {depth : Nat} {loader : Loader}
    (hagain : ∀ s : Session, s.loader = some loader → Status key false false s →
      s.loads.size + depth ≤ (loadWithin depth key s).1.loads.size) :
    ∀ (actions : List LoaderAction) {registered pending : Bool} {s : Session},
      Loader.calm registered pending actions = false → Status key registered pending s →
      s.loader = some loader →
      s.loads.size + depth ≤ (act (loadWithin depth) key actions s).1.loads.size
  | [], _, _, _, hcalm, _, _ => by simp [Loader.calm] at hcalm
  | .register :: rest, _, _, s, hcalm, hstatus, hloader => by
    have hrest := size_loads_act_of_not_calm hagain rest hcalm (hstatus.register loadedFactory)
      (by rw [loader_register, hloader])
    rwa [size_loads_register] at hrest
  | .fail :: rest, _, _, s, hcalm, hstatus, hloader => by
    have hrest := size_loads_act_of_not_calm hagain rest hcalm (hstatus.failLoad (failReason key))
      (by rw [loader_failLoad, hloader])
    rwa [size_loads_failLoad] at hrest
  | .abort :: _, _, _, _, hcalm, _, _ => by simp [Loader.calm] at hcalm
  | .wait :: rest, _, _, _, hcalm, hstatus, hloader =>
    size_loads_act_of_not_calm hagain rest hcalm hstatus hloader
  | .reload :: rest, registered, pending, s, hcalm, hstatus, hloader => by
    rw [act]
    cases hor : registered || pending with
    | true =>
      rw [Loader.calm, hor, Bool.true_and] at hcalm
      obtain ⟨loads, notices, heq⟩ := exists_loadWithin_eq (hstatus.not_asks hor) depth
      have hloader' : ((loadWithin depth key s).1.share (loadWithin depth key s).2).1.loader =
          some loader := by rw [loader_share, heq, hloader]
      have hrest := size_loads_act_of_not_calm hagain rest hcalm
        ((hstatus.loadWithin hor depth).share (loadWithin depth key s).2) hloader'
      rw [size_loads_share] at hrest
      exact Nat.le_trans (Nat.add_le_add_right (size_loads_le_loadWithin key depth s) depth) hrest
    | false =>
      -- The key is neither registered nor under way: here the loader is called again.
      obtain ⟨rfl, rfl⟩ : registered = false ∧ pending = false := by simpa using hor
      have hrest := size_loads_le_act (size_loads_le_loadWithin key depth) rest
        ((loadWithin depth key s).1.share (loadWithin depth key s).2).1
      rw [size_loads_share] at hrest
      exact Nat.le_trans (hagain s hloader hstatus) hrest

/-- Without calm, requests nest as deep as they may. -/
theorem size_loads_loadWithin_of_not_calm {loader : Loader}
    (hcalm : Loader.calm false true (loader.actions key) = false) (depth : Nat) :
    ∀ s : Session, s.loader = some loader → Status key false false s →
      s.loads.size + depth ≤ (loadWithin depth key s).1.loads.size := by
  induction depth with
  | zero => exact fun s _ _ => size_loads_le_loadWithin key 0 s
  | succ depth ih =>
    intro s hloader hstatus
    have hasks := asks_of_status hstatus hloader
    have hone : (s.request key).1.loads.size = s.loads.size + 1 := by simp [request_of_asks hasks]
    have hact := size_loads_act_of_not_calm ih (loader.actions key) hcalm (status_request hasks)
      (by rw [request_of_asks hasks, hloader])
    rw [loadWithin_succ, answer_of_asks hasks hloader]
    dsimp only
    split
    · rw [size_loads_abandon]
      omega
    · omega

/-! ## Calm loaders -/

/-- Where a loader is calm, how deep requests may nest does not show in what it does. -/
theorem act_eq_of_calm (depth depth' : Nat) :
    ∀ (actions : List LoaderAction) {registered pending : Bool} {s : Session},
      Loader.calm registered pending actions = true → Status key registered pending s →
      act (loadWithin (depth + 1)) key actions s = act (loadWithin (depth' + 1)) key actions s
  | [], _, _, _, _, _ => rfl
  | .register :: rest, _, _, _, hcalm, hstatus =>
    act_eq_of_calm depth depth' rest hcalm (hstatus.register loadedFactory)
  | .fail :: rest, _, _, _, hcalm, hstatus =>
    act_eq_of_calm depth depth' rest hcalm (hstatus.failLoad (failReason key))
  | .abort :: _, _, _, _, _, _ => rfl
  | .wait :: rest, _, _, _, hcalm, hstatus => act_eq_of_calm depth depth' rest hcalm hstatus
  | .reload :: rest, registered, pending, s, hcalm, hstatus => by
    obtain ⟨hor, hcalm⟩ := Bool.and_eq_true_iff.mp hcalm
    have hasks := hstatus.not_asks hor
    have hafter : Status key registered pending (s.request key).1 :=
      loadWithin_of_not_asks hasks 0 ▸ hstatus.loadWithin hor 1
    rw [act, act, loadWithin_of_not_asks hasks, loadWithin_of_not_asks hasks]
    exact act_eq_of_calm depth depth' rest hcalm (hafter.share _)

/-- Where a loader is calm, two levels of requests are enough. -/
theorem loadWithin_eq_of_calm {loader : Loader} (hloader : s.loader = some loader)
    (hcalm : Loader.calm false true (loader.actions key) = true) (depth : Nat) :
    loadWithin (depth + 2) key s = loadWithin 2 key s := by
  cases hasks : s.asks key with
  | false => rw [loadWithin_of_not_asks hasks, loadWithin_of_not_asks hasks]
  | true =>
    rw [loadWithin_succ, loadWithin_succ, answer_of_asks hasks hloader,
      act_eq_of_calm depth 0 _ hcalm (status_request hasks)]

end Session

/-- **Requests nest finitely exactly where no request calls the loader again.** -/
theorem Loader.nestsFinitely_iff {loader : Loader} :
    loader.NestsFinitely ↔ ∀ key, Loader.calm false true (loader.actions key) = true := by
  constructor
  · intro hfinite key
    obtain ⟨bound, hbound⟩ := hfinite key
    by_contra hcalm
    have hgrows := Session.size_loads_loadWithin_of_not_calm (Bool.not_eq_true _ ▸ hcalm)
      (bound + 1) { loader := some loader } rfl ⟨rfl, rfl⟩
    have hle := hbound (bound + 1)
    simp only [Array.size_empty, Nat.zero_add] at hgrows
    omega
  · intro hcalm key
    let sizes := fun depth =>
      (Session.loadWithin depth key { loader := some loader }).1.loads.size
    refine ⟨max (sizes 0) (max (sizes 1) (sizes 2)), fun depth => ?_⟩
    match depth with
    | 0 => exact Nat.le_max_left _ _
    | 1 => exact Nat.le_trans (Nat.le_max_left _ _) (Nat.le_max_right _ _)
    | depth + 2 =>
      rw [Session.loadWithin_eq_of_calm rfl (hcalm key)]
      exact Nat.le_trans (Nat.le_max_right _ _) (Nat.le_max_right _ _)

/-! ## Moves are allowed -/

namespace Chronicle

variable {c : Chronicle} {key : String} {i : Nat}

/-- The request `i` was made for the key, and no other one for it is open. -/
def Serves (key : String) (i : Nat) (c : Chronicle) : Prop :=
  c.made[i]? = some key ∧ ∀ j, c.session.pending.get? key = some j → j = i

theorem Serves.note_of_pending (h : c.Serves key i) (m : Move)
    (hpending : ∀ j, (m.apply c.session).pending.get? key = some j →
      c.session.pending.get? key = some j) : (c.note m).Serves key i :=
  ⟨made_noteAll h.1 [m], fun j hj => h.2 j (hpending j hj)⟩

/-- What a calm loader does is allowed, and its request stays the only one for its key. -/
theorem allowsAll_actTrail (depth : Nat) :
    ∀ (actions : List LoaderAction) {registered pending : Bool} {c : Chronicle}, c.Good →
      Loader.calm registered pending actions = true →
      Session.Status key registered pending c.session → c.Serves key i →
      let trail := Session.actTrail (Session.loadWithin (depth + 1))
        (Session.trailWithin (depth + 1)) key actions c.session
      AllowsAll trail c ∧ (noteAll trail c).Serves key i
  | [], _, _, _, _, _, _, hserves => ⟨trivial, hserves⟩
  | .register :: rest, _, _, c, hgood, hcalm, hstatus, hserves => by
    have hstep : (c.note (.register key Session.loadedFactory)).Serves key i := by
      refine hserves.note_of_pending _ fun j hj => ?_
      have hnone := (hstatus.register Session.loadedFactory).pending
      simp only [Move.apply] at hj
      simp [Entries.has, hj] at hnone
    have hrest := allowsAll_actTrail depth rest (hgood.note_register key _) hcalm
      (hstatus.register Session.loadedFactory) hstep
    exact ⟨⟨trivial, hrest.1⟩, hrest.2⟩
  | .fail :: rest, _, _, c, hgood, hcalm, hstatus, hserves => by
    have hstep : (c.note (.fail key (Session.failReason key))).Serves key i := by
      refine hserves.note_of_pending _ fun j hj => ?_
      have hnone := (hstatus.failLoad (Session.failReason key)).pending
      simp only [Move.apply] at hj
      simp [Entries.has, hj] at hnone
    have hrest := allowsAll_actTrail depth rest (hgood.note_fail key _) hcalm
      (hstatus.failLoad (Session.failReason key)) hstep
    exact ⟨⟨trivial, hrest.1⟩, hrest.2⟩
  | .abort :: _, _, _, _, _, _, _, hserves => ⟨trivial, hserves⟩
  | .wait :: rest, _, _, _, hgood, hcalm, hstatus, hserves =>
    allowsAll_actTrail depth rest hgood hcalm hstatus hserves
  | .reload :: rest, registered, pending, c, hgood, hcalm, hstatus, hserves => by
    obtain ⟨hor, hcalm⟩ := Bool.and_eq_true_iff.mp hcalm
    have hasks := hstatus.not_asks hor
    have hafter : Session.Status key registered pending (c.session.request key).1 :=
      Session.loadWithin_of_not_asks hasks 0 ▸ hstatus.loadWithin hor 1
    obtain ⟨loads, notices, heq⟩ := Session.exists_request_eq hasks
    have hasked : (c.note (.ask key)).Serves key i := by
      refine hserves.note_of_pending _ fun j hj => ?_
      rwa [Move.apply, heq] at hj
    have hgiven :
        ((c.note (.ask key)).note (.give key (c.session.request key).2)).Serves key i := by
      refine hasked.note_of_pending _ fun j hj => ?_
      obtain ⟨shared, hshare⟩ := (c.note (.ask key)).session.exists_share_eq
        (c.session.request key).2
      rwa [Move.apply, hshare] at hj
    have hallows : (c.note (.ask key)).Allows (.give key (c.session.request key).2) :=
      hgood.made_note_ask key
    have hrest := allowsAll_actTrail depth rest ((hgood.note_ask key).note_give hallows) hcalm
      (hafter.share (c.session.request key).2) hgiven
    intro trail
    have htrail : trail = .ask key :: .give key (c.session.request key).2 ::
        Session.actTrail (Session.loadWithin (depth + 1)) (Session.trailWithin (depth + 1)) key rest
          ((c.session.request key).1.share (c.session.request key).2).1 := by
      simp only [trail, Session.actTrail, Session.trailWithin_of_not_asks hasks,
        Session.loadWithin_of_not_asks hasks, List.singleton_append]
    rw [htrail]
    exact ⟨⟨trivial, hallows, hrest.1⟩, hrest.2⟩

/-- The moves of a request are allowed, and what it gives back was made for its key. -/
theorem allowsAll_trailWithin (hgood : c.Good)
    (hcalm : ∀ loader, c.session.loader = some loader →
      Loader.calm false true (loader.actions key) = true) (depth : Nat) :
    AllowsAll (Session.trailWithin (depth + 2) key c.session) c ∧
      (noteAll (Session.trailWithin (depth + 2) key c.session) c).made[
        (c.session.request key).2]? = some key := by
  refine ⟨?_, ?_⟩
  · cases hasks : c.session.asks key with
    | false =>
      rw [Session.trailWithin_of_not_asks hasks]
      exact ⟨trivial, trivial⟩
    | true =>
      obtain ⟨⟨loader, hloader⟩, -⟩ := Session.status_of_asks hasks
      have hserves : (c.note (.ask key)).Serves key (c.session.request key).2 := by
        refine ⟨hgood.made_note_ask key, fun j hj => ?_⟩
        simp only [note, Move.apply, Session.request_of_asks hasks, Entries.get?_set_self] at hj ⊢
        exact (Option.some.inj hj).symm
      have hact := allowsAll_actTrail depth _ (hgood.note_ask key) (hcalm loader hloader)
        (Session.status_request hasks) hserves
      rw [Session.trailWithin, Session.answer_of_asks hasks hloader]
      refine ⟨trivial, allowsAll_append.mpr ⟨hact.1, ?_⟩⟩
      split
      · exact ⟨hact.2, trivial⟩
      · trivial
  · rw [Session.trailWithin]
    exact made_noteAll (hgood.made_note_ask key) _

end Chronicle

/-! ## Runs -/

theorem Move.loader_apply (m : Move) (s : Session) : (m.apply s).loader = s.loader := by
  have hsame : ∀ {t : Session}, s.SameRequests t → t.loader = s.loader := by
    intro t ht
    unfold Session.SameRequests at ht
    rw [ht]
  cases m with
  | register key registration => exact Session.loader_register registration
  | fail key reason => exact Session.loader_failLoad reason
  | ask key =>
    rw [Move.apply]
    obtain ⟨-, heq⟩ | ⟨i, -, -, heq⟩ | ⟨-, -, -, heq⟩ | ⟨_, -, -, -, heq⟩ :=
      s.request_cases key <;> rw [heq] <;> rfl
  | abandon key i => rfl
  | give key i => exact Session.loader_share i
  | overflow => rfl
  | mount key parent arguments => exact hsame (Sitting.keepsRequests_mount key parent arguments s)
  | remove id => exact hsame (Sitting.keepsRequests_remove id s)

theorem Move.loader_applyAll (ms : List Move) (s : Session) :
    (applyAll ms s).loader = s.loader := by
  induction ms generalizing s with
  | nil => rfl
  | cons m ms ih => exact (ih (m.apply s)).trans (m.loader_apply s)

namespace Chronicle

variable {c : Chronicle}

theorem allowsAll_trail (hgood : c.Good)
    (hcalm : ∀ loader, c.session.loader = some loader → loader.NestsFinitely) (a : Session.Act) :
    AllowsAll (a.trail c.session) c := by
  cases a with
  | load key =>
    obtain ⟨hallows, hmade⟩ := allowsAll_trailWithin hgood
      (fun loader hloader => Loader.nestsFinitely_iff.mp (hcalm loader hloader) key) 98
    refine allowsAll_append.mpr ⟨hallows, ?_, trivial⟩
    rw [Session.loadWithin_succ]
    exact hmade
  | _ => exact ⟨trivial, trivial⟩

theorem allowsAll_trailAll (as : List Session.Act) (hgood : c.Good)
    (hcalm : ∀ loader, c.session.loader = some loader → loader.NestsFinitely) :
    AllowsAll (Session.trailAll as c.session) c := by
  induction as generalizing c with
  | nil => trivial
  | cons a as ih =>
    have hallows := allowsAll_trail hgood hcalm a
    refine allowsAll_append.mpr ⟨hallows, ?_⟩
    have hsession : (noteAll (a.trail c.session) c).session = a.run c.session := by
      rw [session_noteAll, Session.applyAll_trail]
    rw [← hsession]
    refine ih (hgood.noteAll hallows) fun loader hloader => hcalm loader ?_
    rwa [session_noteAll, Move.loader_applyAll] at hloader

end Chronicle

/-- **Requests are settled once, and only the one that is under way is open.** Whatever is
done with a new session whose loader, if there is one, nests finitely, the moves of it lead
to where the session is in the end, and between any two moves, also of a loader at work:

* no request was settled twice; the settled ones are those that are not pending, and they
  stay as they are through all later moves;
* no key is registered and under way;
* a request that is done is done with the key it was made for, and the key is registered;
* what is given back for a key was made for the key, and an open request that was made for
  a key is the one that is under way for it; registering the key or failing it settles it;
* the loader was asked for the keys of those requests that were made while there was a
  loader and the key was neither registered nor under way. -/
theorem Session.requests_settle_once (stage : Stage) (loader : Option Loader)
    (hfinite : ∀ l, loader = some l → l.NestsFinitely) (acts : List Session.Act) :
    let start : Session := { stage, loader }
    let moves := trailAll acts start
    Move.applyAll moves start = runAll acts start ∧
    ∀ before after, moves = before ++ after →
      let c := Chronicle.noteAll before { session := start }
      let s := c.session
      (c.settled.Nodup ∧
        (∀ i : Nat, i ∈ c.settled ↔ ∃ load, s.loads[i]? = some load ∧ load ≠ .pending) ∧
        ∀ more rest, after = more ++ rest → ∀ (i : Nat) (load : Load),
          s.loads[i]? = some load → load ≠ .pending →
            (Move.applyAll more s).loads[i]? = some load) ∧
      (∀ key, ¬ (s.registry.has key ∧ s.pending.has key)) ∧
      (∀ (i : Nat) (key : String), s.loads[i]? = some (.done key) →
        c.made[i]? = some key ∧ s.registry.has key) ∧
      ((∀ key i, (key, i) ∈ c.returned → c.made[i]? = some key) ∧
        (∀ (key : String) (i : Nat), s.pending.get? key = some i ↔
          c.made[i]? = some key ∧ s.loads[i]? = some .pending) ∧
        ∀ (key : String) (i : Nat), s.pending.get? key = some i → ∀ registration reason,
          (s.register key registration).loads[i]? = some (.done key) ∧
          (s.failLoad key reason).loads[i]? = some (.failed (.script reason))) ∧
      s.requested = c.asked := by
  intro start moves
  refine ⟨applyAll_trailAll acts start, ?_⟩
  intro before after hmoves c s
  have hallows : Chronicle.AllowsAll moves { session := start } :=
    Chronicle.allowsAll_trailAll acts (Chronicle.good_start stage loader) hfinite
  rw [hmoves, Chronicle.allowsAll_append] at hallows
  have hgood : c.Good := (Chronicle.good_start stage loader).noteAll hallows.1
  refine ⟨⟨hgood.nodup_settled, hgood.mem_settled, fun more rest hafter i load hi hload => ?_⟩,
    fun key hkey => ?_, hgood.done, ⟨hgood.returned, hgood.pending_iff, fun key i hi => ?_⟩,
    hgood.requested⟩
  · have hmore := hallows.2
    rw [hafter, Chronicle.allowsAll_append] at hmore
    rw [← Chronicle.session_noteAll]
    exact hgood.loads_noteAll hmore.1 hi hload
  · have hnone := hgood.apart key hkey.1
    have hsome := hkey.2
    simp [s, Entries.has, hnone] at hsome
  · have hopen := ((hgood.pending_iff key i).mp hi).2
    intro registration reason
    rw [register_of_some hi, failLoad_of_some hi]
    simp only [Array.getElem?_modify, s, hopen, if_true, Option.map_some, and_self]

/-- A loader that asks again, registers, asks again and gives up, one that fails and gives up,
and a key that is asked for twice before it fails. -/
theorem requests_settle_once_page :
    let loader : Loader :=
      [("A", [.reload, .register, .reload, .abort]), ("B", [.reload, .fail, .abort])]
    let acts : List Session.Act := [.load "A", .load "B", .load "C", .load "C", .mount "A" "x" [],
      .fail "C" "gone", .load "C", .register "C" Session.loadedFactory]
    let start : Session := { loader := some loader }
    let whole := Chronicle.noteAll (Session.trailAll acts start) { session := start }
    loader.NestsFinitely ∧
      (∀ before after, Session.trailAll acts start = before ++ after →
        let c := Chronicle.noteAll before { session := start }
        c.settled.Nodup ∧ c.session.requested = c.asked) ∧
      whole.settled = [0, 1, 2, 3, 4] ∧ whole.asked = ["A", "B", "C", "C"] ∧
      whole.returned = [("A", 0), ("A", 1), ("A", 0), ("B", 2), ("B", 2), ("C", 3), ("C", 3),
        ("C", 4)] := by
  intro loader acts start whole
  have hfinite : loader.NestsFinitely := by
    refine Loader.nestsFinitely_iff.mpr fun key => ?_
    simp only [Loader.actions, loader, Entries.get?_cons, Entries.get?_nil]
    split
    · rfl
    · split <;> rfl
  refine ⟨hfinite, fun before after hmoves => ?_, by decide +kernel, by decide +kernel,
    by decide +kernel⟩
  have hsettle := (Session.requests_settle_once {} (some loader)
    (fun l hl => Option.some.inj hl ▸ hfinite) acts).2 before after hmoves
  exact ⟨hsettle.1.1, hsettle.2.2.2.2⟩

end Pageloom
