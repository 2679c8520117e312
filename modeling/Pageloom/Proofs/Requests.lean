import Mathlib.Data.List.Nodup
import Pageloom.Proofs.Entries
import Pageloom.Proofs.Outcome
import Pageloom.Session

/-!
# Requests for scripts

A loader is called inside the request that it answers, and may register, fail, give up or
ask again before the request goes on. What happens is therefore told as a list of moves,
in the order in which they happen: asking, what the loader does, giving up and giving the
request back are moves of their own. A chronicle keeps what the session itself forgets:
the key that each request was made for, the requests that were given back, settled, and
those that the loader was asked for.

One invariant, kept by each move, says all about requests. Two moves need something for
it: a request is given back to who asked for its key, and a loader that gives up leaves no
other request for its key open.

## Main definitions

* `Pageloom.Session.Act`, `Pageloom.Session.runAll` -- what is done with a session
* `Pageloom.Move`, `Pageloom.Session.trailAll` -- what happens, in order
* `Pageloom.Session.applyAll_trailAll` -- moves lead to where the acts lead
* `Pageloom.Chronicle`, `Pageloom.Chronicle.Good` -- what is kept of it, and the invariant
* `Pageloom.Chronicle.Good.note` -- every allowed move keeps the invariant
-/

namespace Pageloom

theorem getElem?_concat {α : Type} (xs : List α) (x : α) (i : Nat) :
    (xs ++ [x])[i]? = if i = xs.length then some x else xs[i]? := by
  rw [List.getElem?_append]
  grind

/-! ## Acts -/

/-- The session after an operation, whether it succeeds or not. -/
def Sitting.after {α : Type} (x : Sitting α) (s : Session) : Session :=
  match x s with
  | .ok _ t => t
  | .error _ t => t

namespace Session

/-- What can be done with a session. -/
inductive Act
  | register (key : String) (registration : Registration)
  | load (key : String)
  | fail (key reason : String)
  | mount (key parent : String) (arguments : List Value)
  | remove (id : String)

/-- The session after an act, whether it succeeds or not. -/
def Act.run : Act → Session → Session
  | register key registration, s => s.register key registration
  | load key, s => (s.load key).1
  | fail key reason, s => s.failLoad key reason
  | mount key parent arguments, s => (Sitting.mount key parent arguments).after s
  | remove id, s => (Sitting.remove id).after s

/-- The session after acts, one after the other. -/
def runAll : List Act → Session → Session
  | [], s => s
  | a :: as, s => runAll as (a.run s)

/-! ## Requests -/

/-- Whether a request for a key calls the loader: there is one, and the key is neither
registered nor under way. -/
def asks (key : String) (s : Session) : Bool :=
  s.loader.isSome && !s.registry.has key && !s.pending.has key

/-- The part of a request before the loader is called. -/
def request (key : String) (s : Session) : Session × Nat :=
  if s.registry.has key then s.addLoad (.done key)
  else match s.pending.get? key with
    | some i => (s, i)
    | none =>
      match s.loader with
      | none => (s.remark (.noLoader key)).addLoad (.failed (.noLoader key))
      | some _ =>
        let (s, i) := s.addLoad .pending
        ({ s with pending := s.pending.set key i, requested := s.requested ++ [key] }, i)

/-- What the loader does for a request; nothing where it is not called. -/
def answer (key : String) (s : Session) : List LoaderAction :=
  match s.loader with
  | some loader => if s.asks key then (loader.get? key).getD [.wait] else []
  | none => []

end Session

/-! ## Moves -/

/-- One thing that happens in a session. -/
inductive Move
  | register (key : String) (registration : Registration)
  | fail (key reason : String)
  /-- A request begins. -/
  | ask (key : String)
  /-- The loader gives up on a request. -/
  | abandon (key : String) (load : Nat)
  /-- A request is given back to who asked. -/
  | give (key : String) (load : Nat)
  /-- A request is nested too deeply. -/
  | overflow
  | mount (key parent : String) (arguments : List Value)
  | remove (id : String)

namespace Move

/-- The session after a move. -/
def apply : Move → Session → Session
  | register key registration, s => s.register key registration
  | fail key reason, s => s.failLoad key reason
  | ask key, s => (s.request key).1
  | abandon key i, s => s.abandon key i
  | give _ i, s => (s.share i).1
  | overflow, s => (s.addLoad .pending).1
  | mount key parent arguments, s => (Sitting.mount key parent arguments).after s
  | remove id, s => (Sitting.remove id).after s

/-- The session after moves, one after the other. -/
def applyAll : List Move → Session → Session
  | [], s => s
  | m :: ms, s => applyAll ms (m.apply s)

theorem applyAll_append (ms ns : List Move) (s : Session) :
    applyAll (ms ++ ns) s = applyAll ns (applyAll ms s) := by
  induction ms generalizing s with
  | nil => rfl
  | cons m ms ih => exact ih (m.apply s)

/-- The key of the request that a move opens. A request for a key that is under way opens
none. -/
def opens (s : Session) : Move → List String
  | ask key => if s.registry.has key || !s.pending.has key then [key] else []
  | _ => []

/-- The requests that a move settles. -/
def settles (s : Session) : Move → List Nat
  | register key _ | fail key _ => (s.pending.get? key).toList
  | ask key =>
    if s.registry.has key || (!s.pending.has key && s.loader.isNone) then [s.loads.size] else []
  | abandon _ i => if s.loads[i]? = some .pending then [i] else []
  | _ => []

/-- The request that a move gives back, with the key it was asked for. -/
def gives : Move → List (String × Nat)
  | give key i => [(key, i)]
  | _ => []

/-- The key that the loader is asked for at a move. -/
def asked (s : Session) : Move → List String
  | ask key => if s.asks key then [key] else []
  | _ => []

end Move

namespace Session

/-- The moves of a loader at work. -/
def actTrail (reload : String → Session → Session × Nat) (trail : String → Session → List Move)
    (key : String) : List LoaderAction → Session → List Move
  | [], _ => []
  | .register :: rest, s =>
    .register key loadedFactory :: actTrail reload trail key rest (s.register key loadedFactory)
  | .fail :: rest, s =>
    .fail key (failReason key) :: actTrail reload trail key rest (s.failLoad key (failReason key))
  | .abort :: _, _ => []
  | .reload :: rest, s =>
    trail key s ++ .give key (reload key s).2 ::
      actTrail reload trail key rest ((reload key s).1.share (reload key s).2).1
  | .wait :: rest, s => actTrail reload trail key rest s

/-- The moves of a request, up to where it is given back. -/
def trailWithin : (depth : Nat) → String → Session → List Move
  | 0, _, _ => [.overflow]
  | depth + 1, key, s =>
    .ask key ::
      (actTrail (loadWithin depth) (trailWithin depth) key (s.answer key) (s.request key).1 ++
        if (act (loadWithin depth) key (s.answer key) (s.request key).1).2 then
          [.abandon key (s.request key).2]
        else [])

/-- The moves of an act. -/
def Act.trail : Act → Session → List Move
  | register key registration, _ => [.register key registration]
  | load key, s => trailWithin 100 key s ++ [.give key (loadWithin 100 key s).2]
  | fail key reason, _ => [.fail key reason]
  | mount key parent arguments, _ => [.mount key parent arguments]
  | remove id, _ => [.remove id]

/-- The moves of acts, one after the other. -/
def trailAll : List Act → Session → List Move
  | [], _ => []
  | a :: as, s => a.trail s ++ trailAll as (a.run s)

variable {s : Session} {key : String}

theorem loadWithin_succ (depth : Nat) (key : String) (s : Session) :
    loadWithin (depth + 1) key s =
      let u := act (loadWithin depth) key (s.answer key) (s.request key).1
      (if u.2 then u.1.abandon key (s.request key).2 else u.1, (s.request key).2) := by
  unfold loadWithin request answer asks Entries.has
  cases hregistered : s.registry.get? key with
  | some registration => cases s.loader <;> simp [act]
  | none =>
    cases hpending : s.pending.get? key with
    | some i => cases s.loader <;> simp [act]
    | none =>
      cases hloader : s.loader with
      | none => simp [act]
      | some loader =>
        simp only [Option.isSome_some, Option.isSome_none, Bool.false_eq_true, if_false,
          Bool.not_false, Bool.and_true, if_true]
        split <;> next hact => rw [hact]; rfl

theorem register_of_some {i : Nat} (hi : s.pending.get? key = some i)
    (registration : Registration) : s.register key registration =
      { s with
        registry := s.registry.set key registration
        pending := s.pending.erase key
        loads := s.loads.modify i fun _ => .done key } := by
  simp [register, settle, hi]

theorem register_of_none (hi : s.pending.get? key = none) (registration : Registration) :
    s.register key registration = { s with registry := s.registry.set key registration } := by
  simp [register, settle, hi]

theorem failLoad_of_some {i : Nat} (hi : s.pending.get? key = some i) (reason : String) :
    s.failLoad key reason =
      { s with
        notices := s.notices ++ [.scriptFailed key reason]
        pending := s.pending.erase key
        loads := s.loads.modify i fun _ => .failed (.script reason) } := by
  simp [failLoad, settle, remark, Entries.has, hi]

theorem failLoad_of_none (hi : s.pending.get? key = none) (reason : String) :
    s.failLoad key reason = s := by
  simp [failLoad, Entries.has, hi]

theorem exists_register_eq (s : Session) (key : String) (registration : Registration) :
    ∃ pending loads, loads.size = s.loads.size ∧ s.register key registration =
      { s with registry := s.registry.set key registration, pending, loads } := by
  cases hi : s.pending.get? key with
  | none => exact ⟨_, _, rfl, register_of_none hi registration⟩
  | some i => exact ⟨_, _, Array.size_modify, register_of_some hi registration⟩

theorem exists_failLoad_eq (s : Session) (key reason : String) :
    ∃ notices pending loads, loads.size = s.loads.size ∧
      s.failLoad key reason = { s with notices, pending, loads } := by
  cases hi : s.pending.get? key with
  | none => exact ⟨_, _, _, rfl, failLoad_of_none hi reason⟩
  | some i => exact ⟨_, _, _, Array.size_modify, failLoad_of_some hi reason⟩

/-- What a request does before the loader is called: the key is registered, or under way,
or there is no loader, or the loader is about to be called. -/
theorem request_cases (key : String) (s : Session) :
    (s.registry.has key = true ∧ s.request key = s.addLoad (.done key)) ∨
    (∃ i, s.registry.has key = false ∧ s.pending.get? key = some i ∧ s.request key = (s, i)) ∨
    (s.registry.has key = false ∧ s.pending.get? key = none ∧ s.loader = none ∧
      s.request key = (s.remark (.noLoader key)).addLoad (.failed (.noLoader key))) ∨
    (∃ loader, s.registry.has key = false ∧ s.pending.get? key = none ∧
      s.loader = some loader ∧ s.request key =
        ({ s with
          loads := s.loads.push .pending
          pending := s.pending.set key s.loads.size
          requested := s.requested ++ [key] }, s.loads.size)) := by
  unfold request
  cases s.registry.has key with
  | true => exact .inl ⟨rfl, rfl⟩
  | false =>
    cases s.pending.get? key with
    | some i => exact .inr (.inl ⟨i, rfl, rfl, rfl⟩)
    | none =>
      cases hloader : s.loader with
      | none => exact .inr (.inr (.inl ⟨rfl, rfl, rfl, rfl⟩))
      | some loader => exact .inr (.inr (.inr ⟨loader, rfl, rfl, rfl, by simp [addLoad, hloader]⟩))

theorem exists_share_eq (s : Session) (i : Nat) :
    ∃ shared, (s.share i).1 = { s with shared } := by
  unfold share
  split
  · exact ⟨_, rfl⟩
  · exact ⟨_, rfl⟩

/-- The trail of a loader at work leads to where the loader leaves the session. -/
theorem applyAll_actTrail {reload : String → Session → Session × Nat}
    {trail : String → Session → List Move}
    (htrail : ∀ s, Move.applyAll (trail key s) s = (reload key s).1)
    (actions : List LoaderAction) (s : Session) :
    Move.applyAll (actTrail reload trail key actions s) s = (act reload key actions s).1 := by
  induction actions generalizing s with
  | nil => rfl
  | cons action rest ih =>
    cases action with
    | register => exact ih _
    | fail => exact ih _
    | abort => rfl
    | wait => exact ih _
    | reload =>
      rw [actTrail, Move.applyAll_append, htrail]
      exact ih _

/-- The trail of a request leads to where the request leaves the session. -/
theorem applyAll_trailWithin (depth : Nat) (key : String) (s : Session) :
    Move.applyAll (trailWithin depth key s) s = (loadWithin depth key s).1 := by
  induction depth generalizing s with
  | zero => rfl
  | succ depth ih =>
    rw [loadWithin_succ, trailWithin, Move.applyAll, Move.applyAll_append, Move.apply,
      applyAll_actTrail ih]
    split <;> next hact => simp [hact, Move.applyAll, Move.apply]

theorem applyAll_trail (a : Act) (s : Session) : Move.applyAll (a.trail s) s = a.run s := by
  cases a with
  | load key =>
    rw [Act.trail, Move.applyAll_append, applyAll_trailWithin]
    rfl
  | _ => rfl

/-- The trail of acts leads to where the acts leave the session. -/
theorem applyAll_trailAll (as : List Act) (s : Session) :
    Move.applyAll (trailAll as s) s = runAll as s := by
  induction as generalizing s with
  | nil => rfl
  | cons a as ih => rw [trailAll, Move.applyAll_append, applyAll_trail, ih, runAll]

end Session

/-! ## What mounting leaves alone -/

namespace Session

/-- `t` is `s` but for the page, the nodes that factories made and the notices. -/
def SameRequests (s t : Session) : Prop :=
  t = { s with stage := t.stage, cache := t.cache, invoked := t.invoked, notices := t.notices }

theorem SameRequests.trans {s t u : Session} (h : s.SameRequests t) (h' : t.SameRequests u) :
    s.SameRequests u := by
  unfold SameRequests at *
  rw [h']
  rw [h]

end Session

namespace Sitting

variable {α β : Type} {x : Sitting α} {f : α → Sitting β}

/-- An operation that leaves requests alone, whether it succeeds or not. -/
def KeepsRequests (x : Sitting α) : Prop := ∀ s : Session, s.SameRequests (x.after s)

theorem KeepsRequests.bind (hx : KeepsRequests x) (hf : ∀ a, KeepsRequests (f a)) :
    KeepsRequests (x >>= f) := by
  intro s
  have hs := hx s
  unfold after at *
  cases hxs : x s with
  | ok a t =>
    rw [bind_of_ok hxs]
    rw [hxs] at hs
    exact hs.trans (hf a t)
  | error e t =>
    rw [bind_of_error hxs]
    rwa [hxs] at hs

theorem keepsRequests_pure (a : α) : KeepsRequests (pure a : Sitting α) := fun _ => rfl

theorem keepsRequests_get : KeepsRequests (get : Sitting Session) := fun _ => rfl

theorem keepsRequests_remark (n : Notice) :
    KeepsRequests (modify (Session.remark n) : Sitting PUnit) := fun _ => rfl

theorem keepsRequests_live (act : Live α) : KeepsRequests (live act) := by
  intro s
  unfold after live
  cases act s.stage <;> rfl

theorem keepsRequests_inspect (look : Document → Except Fault α) :
    KeepsRequests (inspect look) :=
  keepsRequests_get.bind fun _ => keepsRequests_live _

theorem keepsRequests_made (key : String) (registration : Registration) (arguments : List Value) :
    KeepsRequests (made key registration arguments) := by
  refine keepsRequests_get.bind fun s => ?_
  cases s.cache.get? key with
  | some i => exact keepsRequests_pure i
  | none =>
    refine (keepsRequests_live _).bind fun i => ?_
    exact KeepsRequests.bind (fun _ => rfl) fun _ => keepsRequests_pure i

theorem keepsRequests_mount (key parent : String) (arguments : List Value) :
    KeepsRequests (mount key parent arguments) := by
  refine (keepsRequests_inspect _).bind fun found => ?_
  cases found with
  | none => exact (keepsRequests_remark _).bind fun _ => keepsRequests_pure none
  | some target =>
    refine keepsRequests_get.bind fun s => ?_
    cases s.registry.get? key with
    | none => exact (keepsRequests_remark _).bind fun _ => keepsRequests_pure none
    | some registration =>
      refine (keepsRequests_made _ _ _).bind fun i => ?_
      have hclone : KeepsRequests (clone i true) :=
        (keepsRequests_inspect _).bind fun copy =>
          (keepsRequests_live _).bind fun _ => keepsRequests_pure copy.2
      exact hclone.bind fun j => (keepsRequests_live _).bind fun _ => keepsRequests_pure (some j)

theorem keepsRequests_remove (id : String) : KeepsRequests (remove id) := by
  refine (keepsRequests_inspect _).bind fun found => ?_
  cases found with
  | none => exact (keepsRequests_remark _).bind fun _ => keepsRequests_pure false
  | some i => exact (keepsRequests_live _).bind fun _ => keepsRequests_pure true

end Sitting

/-! ## Chronicles -/

/-- A session, and what happened in it: the key that each request was made for, by number;
the requests that were given back, with the keys that were asked for; the requests that
were settled; and the keys that the loader was asked for. -/
structure Chronicle where
  session : Session
  made : List String := []
  returned : List (String × Nat) := []
  settled : List Nat := []
  asked : List String := []

namespace Chronicle

/-- The chronicle after a move. -/
def note (m : Move) (c : Chronicle) : Chronicle where
  session := m.apply c.session
  made := c.made ++ m.opens c.session
  returned := c.returned ++ m.gives
  settled := c.settled ++ m.settles c.session
  asked := c.asked ++ m.asked c.session

/-- The chronicle after moves, one after the other. -/
def noteAll : List Move → Chronicle → Chronicle
  | [], c => c
  | m :: ms, c => noteAll ms (c.note m)

theorem session_noteAll (ms : List Move) (c : Chronicle) :
    (noteAll ms c).session = Move.applyAll ms c.session := by
  induction ms generalizing c with
  | nil => rfl
  | cons m ms ih => exact ih (c.note m)

/-- What holds of requests after every move. -/
structure Good (c : Chronicle) : Prop where
  length_made : c.made.length = c.session.loads.size
  pending_iff : ∀ (key : String) (i : Nat), c.session.pending.get? key = some i ↔
    c.made[i]? = some key ∧ c.session.loads[i]? = some .pending
  apart : ∀ key, c.session.registry.has key → c.session.pending.get? key = none
  done : ∀ (i : Nat) (key : String), c.session.loads[i]? = some (.done key) →
    c.made[i]? = some key ∧ c.session.registry.has key
  returned : ∀ (key : String) (i : Nat), (key, i) ∈ c.returned → c.made[i]? = some key
  nodup_settled : c.settled.Nodup
  mem_settled : ∀ i : Nat, i ∈ c.settled ↔
    ∃ load, c.session.loads[i]? = some load ∧ load ≠ .pending
  requested : c.session.requested = c.asked

/-- What a move needs: a request is given back to who asked for its key, and a loader that
gives up leaves no other request for its key open. -/
def Allows (c : Chronicle) : Move → Prop
  | .give key i => c.made[i]? = some key
  | .abandon key i => c.made[i]? = some key ∧ ∀ j, c.session.pending.get? key = some j → j = i
  | .overflow => False
  | _ => True

/-- Every move is allowed when it happens. -/
def AllowsAll : List Move → Chronicle → Prop
  | [], _ => True
  | m :: ms, c => c.Allows m ∧ AllowsAll ms (c.note m)

theorem allowsAll_append {ms ns : List Move} {c : Chronicle} :
    AllowsAll (ms ++ ns) c ↔ AllowsAll ms c ∧ AllowsAll ns (noteAll ms c) := by
  induction ms generalizing c with
  | nil => simp [AllowsAll, noteAll]
  | cons m ms ih => simp [AllowsAll, noteAll, ih, and_assoc]

namespace Good

variable {c : Chronicle} {t : Session} {key : String} {i : Nat}

theorem nodup_settled_concat (h : c.Good) (hi : ∀ load, c.session.loads[i]? = some load →
    load = .pending) : (c.settled ++ [i]).Nodup := by
  have hnotMem : i ∉ c.settled := by
    rw [h.mem_settled]
    rintro ⟨load, hload, hne⟩
    exact hne (hi load hload)
  exact List.Nodup.append h.nodup_settled (List.nodup_singleton i) (by simpa using hnotMem)

/-- What was given back stays what it was when another request is made. -/
theorem returned_concat (h : c.Good) (key : String) {k : String} (hi : (k, i) ∈ c.returned) :
    (c.made ++ [key])[i]? = some k := by
  have hmade := h.returned k i hi
  have hlt : i < c.made.length := (List.getElem?_eq_some_iff.mp hmade).1
  rw [List.getElem?_append_left hlt, hmade]

/-- Nothing about requests changes but that keys may come to be registered that are not
under way. -/
theorem congr (h : c.Good) (hloads : t.loads = c.session.loads)
    (hpending : ∀ k, t.pending.get? k = c.session.pending.get? k)
    (hgrows : ∀ k, c.session.registry.has k → t.registry.has k)
    (hnew : ∀ k, t.registry.has k → c.session.registry.has k ∨ c.session.pending.get? k = none)
    (hrequested : t.requested = c.session.requested) : ({ c with session := t }).Good where
  length_made := h.length_made.trans (congrArg Array.size hloads.symm)
  pending_iff k j := by
    rw [hpending, hloads]
    exact h.pending_iff k j
  apart k hk := by
    rw [hpending]
    exact (hnew k hk).elim (h.apart k) id
  done j k hj := by
    rw [hloads] at hj
    exact ⟨(h.done j k hj).1, hgrows k (h.done j k hj).2⟩
  returned := h.returned
  nodup_settled := h.nodup_settled
  mem_settled j := by
    rw [hloads]
    exact h.mem_settled j
  requested := hrequested.trans h.requested

/-- The request that is under way for a key is settled. -/
theorem close (h : c.Good) (load : Load) (hi : c.session.pending.get? key = some i)
    (hload : load ≠ .pending) (hloads : t.loads = c.session.loads.modify i fun _ => load)
    (hpending : t.pending = c.session.pending.erase key)
    (hgrows : ∀ k, c.session.registry.has k → t.registry.has k)
    (hnew : ∀ k, t.registry.has k → c.session.registry.has k ∨ k = key)
    (hdone : ∀ k, load = .done k → k = key ∧ t.registry.has key)
    (hrequested : t.requested = c.session.requested) :
    ({ c with session := t, settled := c.settled ++ [i] }).Good := by
  obtain ⟨hmade, hopen⟩ := (h.pending_iff key i).mp hi
  have hcells : ∀ j, t.loads[j]? = if j = i then some load else c.session.loads[j]? := by
    intro j
    rw [hloads, Array.getElem?_modify]
    by_cases hj : j = i
    · simp [hj, hopen]
    · simp [hj, Ne.symm hj]
  refine ⟨?_, fun k j => ?_, fun k hk => ?_, fun j k hj => ?_, h.returned, ?_, fun j => ?_,
    hrequested.trans h.requested⟩
  · simp [hloads, h.length_made]
  · rw [hpending, Entries.get?_erase, hcells]
    by_cases hj : j = i
    · subst hj
      simp only [if_true, Option.some.injEq, hload, and_false, iff_false]
      split
      · nofun
      · next hne =>
        intro hk
        exact hne (Option.some.inj (hmade.symm.trans ((h.pending_iff k j).mp hk).1))
    · by_cases hk : key = k
      · subst hk
        simp only [if_true, hj, if_false, reduceCtorEq, false_iff]
        intro hj'
        exact hj (Option.some.inj (((h.pending_iff key j).mpr hj').symm.trans hi))
      · simp [hk, hj, h.pending_iff]
  · rw [hpending, Entries.get?_erase]
    split
    · rfl
    · next hne => exact h.apart k ((hnew k hk).resolve_right (Ne.symm hne))
  · rw [hcells] at hj
    split at hj
    · next heq =>
      obtain ⟨rfl, hregistered⟩ := hdone k (Option.some.inj hj)
      exact ⟨heq ▸ hmade, hregistered⟩
    · exact ⟨(h.done j k hj).1, hgrows k (h.done j k hj).2⟩
  · refine h.nodup_settled_concat fun l hl => ?_
    rw [hopen] at hl
    exact (Option.some.inj hl).symm
  · rw [List.mem_append, h.mem_settled, hcells, List.mem_singleton]
    by_cases hj : j = i
    · simp [hj, hload]
    · simp [hj]

/-- A request is opened that is settled from the start. -/
theorem openSettled (h : c.Good) (key : String) (load : Load) (hload : load ≠ .pending)
    (hloads : t.loads = c.session.loads.push load) (hpending : t.pending = c.session.pending)
    (hregistry : t.registry = c.session.registry)
    (hdone : ∀ k, load = .done k → k = key ∧ c.session.registry.has key)
    (hrequested : t.requested = c.session.requested) :
    ({ c with session := t, made := c.made ++ [key],
              settled := c.settled ++ [c.session.loads.size] }).Good := by
  have hlength := h.length_made
  refine ⟨?_, fun k j => ?_, fun k hk => ?_, fun j k hj => ?_,
    fun _ _ => h.returned_concat key, ?_, fun j => ?_, hrequested.trans h.requested⟩
  · simp [hloads, hlength]
  · rw [hpending, hloads, getElem?_concat, Array.getElem?_push, hlength, h.pending_iff]
    by_cases hj : j = c.session.loads.size
    · subst hj
      simp [hload]
    · simp [hj]
  · rw [hregistry] at hk
    rw [hpending]
    exact h.apart k hk
  · rw [hloads, Array.getElem?_push] at hj
    rw [hregistry, getElem?_concat, hlength]
    split at hj
    · next heq =>
      obtain ⟨rfl, hregistered⟩ := hdone k (Option.some.inj hj)
      exact ⟨if_pos heq, hregistered⟩
    · next hne =>
      rw [if_neg hne]
      exact h.done j k hj
  · exact h.nodup_settled_concat fun l hl => by simp at hl
  · rw [List.mem_append, h.mem_settled, hloads, Array.getElem?_push, List.mem_singleton]
    by_cases hj : j = c.session.loads.size
    · simp [hj, hload]
    · simp [hj]

/-- A request is opened that is under way. -/
theorem openPending (h : c.Good) (hregistered : c.session.registry.has key = false)
    (hfree : c.session.pending.get? key = none)
    (hloads : t.loads = c.session.loads.push .pending)
    (hpending : t.pending = c.session.pending.set key c.session.loads.size)
    (hregistry : t.registry = c.session.registry)
    (hrequested : t.requested = c.session.requested ++ [key]) :
    ({ c with session := t, made := c.made ++ [key], asked := c.asked ++ [key] }).Good := by
  have hlength := h.length_made
  refine ⟨?_, fun k j => ?_, fun k hk => ?_, fun j k hj => ?_,
    fun _ _ => h.returned_concat key, h.nodup_settled, fun j => ?_, ?_⟩
  · simp [hloads, hlength]
  · rw [hpending, hloads, Entries.get?_set, getElem?_concat, Array.getElem?_push, hlength]
    by_cases hj : j = c.session.loads.size
    · subst hj
      by_cases hk : key = k
      · simp [hk]
      · simp [hk, h.pending_iff]
    · by_cases hk : key = k
      · subst hk
        simp only [if_true, Option.some.injEq, Ne.symm hj, false_iff, hj, if_false]
        rw [← h.pending_iff, hfree]
        exact nofun
      · simp [hk, hj, h.pending_iff]
  · rw [hregistry] at hk
    rw [hpending, Entries.get?_set, if_neg]
    · exact h.apart k hk
    · rintro rfl
      rw [hregistered] at hk
      cases hk
  · rw [hloads, Array.getElem?_push] at hj
    rw [hregistry, getElem?_concat, hlength]
    split at hj
    · cases hj
    · next hne =>
      rw [if_neg hne]
      exact h.done j k hj
  · rw [h.mem_settled, hloads, Array.getElem?_push]
    by_cases hj : j = c.session.loads.size
    · simp [hj]
    · simp [hj]
  · rw [hrequested, h.requested]

/-! ### Moves keep the invariant -/

theorem note_register (h : c.Good) (key : String) (registration : Registration) :
    (c.note (.register key registration)).Good := by
  have hhas : ∀ k, (c.session.registry.set key registration).has k ↔
      c.session.registry.has k ∨ k = key := by
    intro k
    simp only [Entries.has, Entries.get?_set]
    by_cases hk : key = k
    · simp [hk]
    · simp [hk, Ne.symm hk]
  simp only [note, Move.apply, Move.opens, Move.gives, Move.settles, Move.asked, List.append_nil]
  cases hi : c.session.pending.get? key with
  | none =>
    rw [Session.register_of_none hi, Option.toList_none, List.append_nil]
    refine h.congr rfl (fun _ => rfl) (fun k hk => (hhas k).mpr (.inl hk)) (fun k hk => ?_) rfl
    rcases (hhas k).mp hk with hk | rfl
    · exact .inl hk
    · exact .inr hi
  | some i =>
    rw [Session.register_of_some hi]
    refine h.close (.done key) hi (by simp) rfl rfl (fun k hk => (hhas k).mpr (.inl hk))
      (fun k hk => (hhas k).mp hk) (fun k hk => ?_) rfl
    exact ⟨(Load.done.inj hk).symm, (hhas key).mpr (.inr rfl)⟩

theorem note_fail (h : c.Good) (key reason : String) : (c.note (.fail key reason)).Good := by
  simp only [note, Move.apply, Move.opens, Move.gives, Move.settles, Move.asked, List.append_nil]
  cases hi : c.session.pending.get? key with
  | none =>
    rw [Session.failLoad_of_none hi, Option.toList_none, List.append_nil]
    exact h
  | some i =>
    rw [Session.failLoad_of_some hi]
    exact h.close (.failed (.script reason)) hi nofun rfl rfl (fun _ => id) (fun _ => .inl) nofun
      rfl

theorem note_ask (h : c.Good) (key : String) : (c.note (.ask key)).Good := by
  unfold note
  simp only [Move.apply, Move.gives, List.append_nil]
  obtain ⟨hregistered, heq⟩ | ⟨i, hregistered, hi, heq⟩ | ⟨hregistered, hi, hloader, heq⟩ |
    ⟨loader, hregistered, hi, hloader, heq⟩ := c.session.request_cases key
  · have hgood := h.openSettled (t := (c.session.addLoad (.done key)).1) key (.done key) nofun rfl
      rfl rfl (fun k hk => ⟨(Load.done.inj hk).symm, hregistered⟩) rfl
    simpa [Move.opens, Move.settles, Move.asked, Session.asks, hregistered, heq] using hgood
  · have hhas := Entries.has_of_some hi
    simpa [Move.opens, Move.settles, Move.asked, Session.asks, hregistered, hhas, heq] using h
  · have hhas := Entries.has_of_none hi
    have hgood := h.openSettled
      (t := ((c.session.remark (.noLoader key)).addLoad (.failed (.noLoader key))).1)
      key (.failed (.noLoader key)) nofun rfl rfl rfl nofun rfl
    simpa [Move.opens, Move.settles, Move.asked, Session.asks, hregistered, hhas, hloader, heq]
      using hgood
  · have hhas := Entries.has_of_none hi
    have hgood := h.openPending (t := (c.session.request key).1) hregistered hi (by rw [heq])
      (by rw [heq]) (by rw [heq]) (by rw [heq])
    simpa [Move.opens, Move.settles, Move.asked, Session.asks, hregistered, hhas, hloader]
      using hgood

theorem note_abandon (h : c.Good) (hallows : c.Allows (.abandon key i)) :
    (c.note (.abandon key i)).Good := by
  obtain ⟨hmade, honly⟩ := hallows
  simp only [note, Move.apply, Move.opens, Move.gives, Move.settles, Move.asked, List.append_nil,
    Session.abandon, Session.remark]
  by_cases hopen : c.session.loads[i]? = some .pending
  · rw [if_pos hopen]
    have hi : c.session.pending.get? key = some i := (h.pending_iff key i).mpr ⟨hmade, hopen⟩
    refine h.close (.failed (.script (Session.abortReason key))) hi nofun ?_ rfl (fun _ => id)
      (fun _ => .inl) nofun rfl
    apply Array.ext_getElem?
    intro j
    simp only [Array.getElem?_modify]
    split
    · next hj => simp [← hj, hopen]
    · rfl
  · rw [if_neg hopen, List.append_nil]
    have hnone : c.session.pending.get? key = none := by
      cases hj : c.session.pending.get? key with
      | none => rfl
      | some j =>
        obtain rfl := honly j hj
        exact absurd ((h.pending_iff key j).mp hj).2 hopen
    refine h.congr ?_ (fun k => ?_) (fun _ => id) (fun _ => .inl) rfl
    · apply Array.ext_getElem?
      intro j
      simp only [Array.getElem?_modify]
      split
      · next hj =>
        subst hj
        cases hload : c.session.loads[i]? with
        | none => rfl
        | some load =>
          have hne : load ≠ .pending := by
            rintro rfl
            exact hopen hload
          simp [hne]
      · rfl
    · simp only [Entries.get?_erase]
      split
      · next hk => rw [← hk, hnone]
      · rfl

theorem note_give (h : c.Good) (hallows : c.Allows (.give key i)) :
    (c.note (.give key i)).Good := by
  obtain ⟨shared, hshare⟩ := c.session.exists_share_eq i
  have hgood := h.congr (t := { c.session with shared }) rfl (fun _ => rfl) (fun _ => id)
    (fun _ => .inl) rfl
  simp only [note, Move.apply, Move.opens, Move.gives, Move.settles, Move.asked, List.append_nil,
    hshare]
  refine { hgood with returned := fun k j hj => ?_ }
  rcases List.mem_append.mp hj with hj | hj
  · exact h.returned k j hj
  · cases List.mem_singleton.mp hj
    exact hallows

theorem note_sameRequests (h : c.Good) (hsame : c.session.SameRequests t) :
    ({ c with session := t }).Good := by
  unfold Session.SameRequests at hsame
  refine h.congr (by rw [hsame]) (fun k => by rw [hsame]) (fun k hk => by rw [hsame]; exact hk)
    (fun k hk => ?_) (by rw [hsame])
  rw [hsame] at hk
  exact .inl hk

/-- **Every allowed move keeps the invariant.** -/
theorem note (h : c.Good) {m : Move} (hallows : c.Allows m) : (c.note m).Good := by
  cases m with
  | register key registration => exact h.note_register key registration
  | fail key reason => exact h.note_fail key reason
  | ask key => exact h.note_ask key
  | abandon key i => exact h.note_abandon hallows
  | give key i => exact h.note_give hallows
  | overflow => exact hallows.elim
  | mount key parent arguments =>
    have hgood := h.note_sameRequests (Sitting.keepsRequests_mount key parent arguments c.session)
    simpa [Chronicle.note, Move.apply, Move.opens, Move.gives, Move.settles, Move.asked] using hgood
  | remove id =>
    have hgood := h.note_sameRequests (Sitting.keepsRequests_remove id c.session)
    simpa [Chronicle.note, Move.apply, Move.opens, Move.gives, Move.settles, Move.asked] using hgood

theorem noteAll {ms : List Move} (h : c.Good) (hallows : AllowsAll ms c) :
    (Chronicle.noteAll ms c).Good := by
  induction ms generalizing c with
  | nil => exact h
  | cons m ms ih => exact ih (h.note hallows.1) hallows.2

/-! ### What is settled stays as it is -/

theorem loads_note (h : c.Good) {m : Move} (hallows : c.Allows m) {load : Load}
    (hi : c.session.loads[i]? = some load) (hload : load ≠ .pending) :
    (c.note m).session.loads[i]? = some load := by
  have hother : ∀ {key j}, c.session.pending.get? key = some j → ∀ l : Load,
      (c.session.loads.modify j fun _ => l)[i]? = some load := by
    intro key j hj l
    have hne : j ≠ i := by
      rintro rfl
      rw [((h.pending_iff key j).mp hj).2] at hi
      exact hload (Option.some.inj hi).symm
    rw [Array.getElem?_modify, if_neg hne, hi]
  have hpush : ∀ l : Load, (c.session.loads.push l)[i]? = some load := by
    intro l
    have hlt : i < c.session.loads.size := (Array.getElem?_eq_some_iff.mp hi).1
    rw [Array.getElem?_push, if_neg (Nat.ne_of_lt hlt), hi]
  have hsame : ∀ {t : Session}, c.session.SameRequests t → t.loads[i]? = some load := by
    intro t ht
    unfold Session.SameRequests at ht
    rw [ht]
    exact hi
  change (m.apply c.session).loads[i]? = some load
  cases m with
  | register key registration =>
    cases hj : c.session.pending.get? key with
    | none => simpa only [Move.apply, Session.register_of_none hj] using hi
    | some j => simpa only [Move.apply, Session.register_of_some hj] using hother hj _
  | fail key reason =>
    cases hj : c.session.pending.get? key with
    | none => simpa only [Move.apply, Session.failLoad_of_none hj] using hi
    | some j => simpa only [Move.apply, Session.failLoad_of_some hj] using hother hj _
  | ask key =>
    rw [Move.apply]
    obtain ⟨-, heq⟩ | ⟨j, -, -, heq⟩ | ⟨-, -, -, heq⟩ | ⟨loader, -, -, -, heq⟩ :=
      c.session.request_cases key <;> rw [heq]
    · exact hpush _
    · exact hi
    · exact hpush _
    · exact hpush _
  | abandon key j =>
    simp only [Move.apply, Session.abandon, Session.remark, Array.getElem?_modify, hi]
    split
    · simp [hload]
    · rfl
  | give key j =>
    obtain ⟨shared, hshare⟩ := c.session.exists_share_eq j
    rw [Move.apply, hshare]
    exact hi
  | overflow => exact hallows.elim
  | mount key parent arguments =>
    exact hsame (Sitting.keepsRequests_mount key parent arguments c.session)
  | remove id => exact hsame (Sitting.keepsRequests_remove id c.session)

theorem loads_noteAll {ms : List Move} (h : c.Good) (hallows : AllowsAll ms c) {load : Load}
    (hi : c.session.loads[i]? = some load) (hload : load ≠ .pending) :
    (Chronicle.noteAll ms c).session.loads[i]? = some load := by
  induction ms generalizing c with
  | nil => exact hi
  | cons m ms ih =>
    exact ih (h.note hallows.1) hallows.2 (h.loads_note hallows.1 hi hload)

/-- What a request gives back was made for the key that was asked for. -/
theorem made_note_ask (h : c.Good) (key : String) :
    (c.note (.ask key)).made[(c.session.request key).2]? = some key := by
  have hnew : (c.made ++ [key])[c.session.loads.size]? = some key := by
    rw [getElem?_concat, if_pos h.length_made.symm]
  simp only [Chronicle.note, Move.opens]
  obtain ⟨hregistered, heq⟩ | ⟨j, hregistered, hj, heq⟩ | ⟨hregistered, hj, -, heq⟩ |
    ⟨loader, hregistered, hj, -, heq⟩ := c.session.request_cases key
  · simpa [heq, hregistered, Session.addLoad] using hnew
  · have hhas := Entries.has_of_some hj
    simpa [heq, hregistered, hhas] using ((h.pending_iff key j).mp hj).1
  · have hhas := Entries.has_of_none hj
    simpa [heq, hregistered, hhas, Session.addLoad, Session.remark] using hnew
  · have hhas := Entries.has_of_none hj
    simpa [heq, hregistered, hhas] using hnew

end Good

theorem made_noteAll {c : Chronicle} {i : Nat} {key : String} (hi : c.made[i]? = some key)
    (ms : List Move) : (noteAll ms c).made[i]? = some key := by
  induction ms generalizing c with
  | nil => exact hi
  | cons m ms ih =>
    refine ih ?_
    have hlt : i < c.made.length := (List.getElem?_eq_some_iff.mp hi).1
    rw [note, List.getElem?_append_left hlt, hi]

theorem good_start (stage : Stage) (loader : Option Loader) :
    ({ session := { stage, loader } } : Chronicle).Good := by
  constructor <;> simp [Entries.has]

end Chronicle

end Pageloom
