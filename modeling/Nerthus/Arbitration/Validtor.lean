import Nerthus.Sc.Types
import Nerthus.Lib.Fuel

/-!
# Proofs of dishonest votes

`CheckProofWithState` of `consensus/arbitration/validtor`: a proof is a list of
units of one chain and height, each with enough votes of witnesses.
-/

namespace Nerthus.Arbitration

open Sc (Err VoteMsg WitenssVote AffectedUnit)
open Lib (bind_eq_ok_iff guard_eq_ok_iff)
open List

universe u

/-- The map `badWitness`: how often each witness has voted. The order of the keys has no
meaning. -/
abbrev VoteCounts := List (Address × Nat)

def VoteCounts.increment : VoteCounts → Address → VoteCounts
  | [], a => [(a, 1)]
  | (b, n) :: rest, a =>
    if b = a then (b, n + 1) :: rest else (b, n) :: VoteCounts.increment rest a

section Check

variable {σ : Type} (scAccount : Address) (sender : VoteMsg → Except Err Address)
  (getUnitState : Hash → Except Err σ) (checkWitnessStatus : Option (σ → Address → Except Err Unit))

def checkVotes (h : Hash) (statedb : σ) :
    List WitenssVote → List Address → VoteCounts → Except Err VoteCounts
  | [], _, badWitness => .ok badWitness
  | v :: rest, senders, badWitness => do
    let badSender ← sender (v.toVote h)
    if badSender ∈ senders then throw (.other "repeat voting information")
    match checkWitnessStatus with
    | some check => check statedb badSender
    | none => pure ()
    checkVotes h statedb rest (badSender :: senders) (badWitness.increment badSender)

def checkUnit (mc : Address) (number : Nat) (u : AffectedUnit) (hashs : List Hash) :
    Except Err Unit := do
  let min := Params.getChainMinVoting scAccount mc
  let votes := u.votes.length
  if votes < min then
    throw (.other s!"can not prove dishonest,bad unit's votes is not enough,expect >{min},actually {votes}")
  if Params.getChainWitnessCount scAccount mc < votes then throw (.other "vote list is too big")
  if u.header.mc.empty then throw (.other "empty chain address")
  if u.header.mc ≠ mc then throw (.other "two units is not at the same chain")
  if u.header.number ≠ number then throw (.other "two units is not at the same number")
  if u.header.scHash.emptyHash then throw (.other "invalid header sc hash")
  if u.header.hash ∈ hashs then throw (.other "two units is same")

def checkUnits (mc : Address) (number : Nat) :
    List AffectedUnit → List Hash → VoteCounts → Except Err VoteCounts
  | [], _, badWitness => .ok badWitness
  | u :: rest, hashs, badWitness => do
    checkUnit scAccount mc number u hashs
    let statedb ← getUnitState u.header.scHash
    let badWitness ← checkVotes sender checkWitnessStatus u.header.hash statedb u.votes [] badWitness
    checkUnits mc number rest (u.header.hash :: hashs) badWitness

def checkProofWithState (rep : List AffectedUnit) : Except Err (List Address) :=
  match rep with
  | [] | [_] => .error (.other "the report info must more")
  | first :: _ => do
    let mc := first.header.mc
    let number := first.header.number
    if mc.empty then throw (.other "invalid empty chain address")
    if number = 0 then throw (.other "invalid unit number")
    let badWitness ←
      checkUnits scAccount sender getUnitState checkWitnessStatus mc number rep [] []
    let bads := badWitness.map Prod.fst
    if bads.isEmpty then throw (.other "can not prove dishonest")
    return bads

end Check

/-! ## Who is accused -/

variable {counts : VoteCounts}

section Signers

variable {sender : VoteMsg → Except Err Address}

def Signed (sender : VoteMsg → Except Err Address) (u : AffectedUnit) (a : Address) : Prop :=
  ∃ v ∈ u.votes, sender (v.toVote u.header.hash) = .ok a
deriving Decidable

theorem mem_increment {a b : Address} :
    b ∈ (counts.increment a).map Prod.fst ↔ b ∈ counts.map Prod.fst ∨ b = a := by
  induction counts with
  | nil => simp [VoteCounts.increment]
  | cons entry rest ih =>
    obtain ⟨c, n⟩ := entry
    by_cases hc : c = a
    · simp only [VoteCounts.increment, hc, if_true, map_cons, mem_cons]
      tauto
    · simp only [VoteCounts.increment, hc, if_false, map_cons, mem_cons, ih]
      tauto

theorem nodup_increment (h : (counts.map Prod.fst).Nodup) (a : Address) :
    ((counts.increment a).map Prod.fst).Nodup := by
  induction counts with
  | nil => simp [VoteCounts.increment]
  | cons entry rest ih =>
    obtain ⟨c, n⟩ := entry
    obtain ⟨hnot, hrest⟩ := nodup_cons.mp h
    by_cases hc : c = a
    · simpa only [VoteCounts.increment, hc, if_true, map_cons] using h
    simp only [VoteCounts.increment, hc, if_false, map_cons, nodup_cons]
    refine ⟨fun hmem => ?_, ih hrest⟩
    rcases mem_increment.mp hmem with hold | hnew
    · exact hnot hold
    · exact hc hnew

variable {σ : Type} {checkWitnessStatus : Option (σ → Address → Except Err Unit)}

theorem checkVotes_spec {h : Hash} {statedb : σ} {votes : List WitenssVote} {senders : List Address}
    {counts' : VoteCounts}
    (hok : checkVotes sender checkWitnessStatus h statedb votes senders counts = .ok counts')
    (hnodup : (counts.map Prod.fst).Nodup) :
    (counts'.map Prod.fst).Nodup ∧ ∀ a, a ∈ counts'.map Prod.fst ↔
      a ∈ counts.map Prod.fst ∨ ∃ v ∈ votes, sender (v.toVote h) = .ok a := by
  induction votes generalizing senders counts with
  | nil =>
    cases hok
    exact ⟨hnodup, by simp⟩
  | cons v rest ih =>
    obtain ⟨badSender, hsender, hok⟩ := bind_eq_ok_iff.mp hok
    obtain ⟨-, hok⟩ := guard_eq_ok_iff.mp hok
    have hrest : checkVotes sender checkWitnessStatus h statedb rest (badSender :: senders)
        (counts.increment badSender) = .ok counts' := by
      cases checkWitnessStatus with
      | none => exact hok
      | some check =>
        obtain ⟨_, -, hok⟩ := bind_eq_ok_iff.mp hok
        exact hok
    obtain ⟨hnodup', hmem⟩ := ih hrest (nodup_increment hnodup badSender)
    refine ⟨hnodup', fun a => ?_⟩
    rw [hmem a, mem_increment]
    have hfirst : sender (v.toVote h) = .ok a ↔ a = badSender := by
      rw [hsender, Except.ok.injEq, eq_comm]
    simp only [mem_cons, exists_eq_or_imp, hfirst]
    tauto

variable {scAccount : Address} {getUnitState : Hash → Except Err σ}

structure Accepted (mc : Address) (number : Nat) (u : AffectedUnit) : Prop where
  mc : u.header.mc = mc
  number : u.header.number = number

theorem checkUnit_spec {mc : Address} {number : Nat} {u : AffectedUnit} {hashs : List Hash}
    (hok : checkUnit scAccount mc number u hashs = .ok ()) :
    Accepted mc number u ∧ u.header.hash ∉ hashs := by
  unfold checkUnit at hok
  simp only [guard_eq_ok_iff] at hok
  obtain ⟨-, -, -, hmc, hnumber, -, hok⟩ := hok
  refine ⟨⟨Decidable.not_not.mp hmc, Decidable.not_not.mp hnumber⟩, fun hmem => ?_⟩
  rw [if_pos hmem] at hok
  cases hok

theorem checkUnits_spec {mc : Address} {number : Nat} {units : List AffectedUnit}
    {hashs : List Hash} {counts' : VoteCounts}
    (hok : checkUnits scAccount sender getUnitState checkWitnessStatus mc number units hashs counts =
      .ok counts') (hnodup : (counts.map Prod.fst).Nodup) : (counts'.map Prod.fst).Nodup ∧
      (∀ a, a ∈ counts'.map Prod.fst ↔
        a ∈ counts.map Prod.fst ∨ ∃ u ∈ units, Signed sender u a) ∧
      (∀ u ∈ units, Accepted mc number u) ∧
      (units.map (·.header.hash)).Nodup ∧ ∀ u ∈ units, u.header.hash ∉ hashs := by
  induction units generalizing hashs counts with
  | nil =>
    cases hok
    exact ⟨hnodup, by simp, by simp, by simp, by simp⟩
  | cons u rest ih =>
    obtain ⟨_, hunit, hok⟩ := bind_eq_ok_iff.mp hok
    obtain ⟨statedb, -, hok⟩ := bind_eq_ok_iff.mp hok
    obtain ⟨counts₁, hvotes, hok⟩ := bind_eq_ok_iff.mp hok
    obtain ⟨hunit, hnew⟩ := checkUnit_spec hunit
    obtain ⟨hnodup₁, hmem₁⟩ := checkVotes_spec hvotes hnodup
    obtain ⟨hnodup', hmem', haccepted, hhashes, hout⟩ := ih hok hnodup₁
    refine ⟨hnodup', fun a => ?_, fun x hx => ?_, ?_, fun x hx => ?_⟩
    · rw [hmem' a, hmem₁ a, or_assoc]
      simp only [mem_cons, exists_eq_or_imp]
      rfl
    · rcases mem_cons.mp hx with rfl | hx
      · exact hunit
      · exact haccepted x hx
    · rw [map_cons, nodup_cons]
      refine ⟨fun hmem => ?_, hhashes⟩
      obtain ⟨x, hx, heq⟩ := mem_map.mp hmem
      exact hout x hx (heq ▸ (.head _))
    · rcases mem_cons.mp hx with rfl | hx
      · exact hnew
      · exact fun hmem => hout x hx (.tail _ hmem)

/-- An accepted proof: different units of one chain and height, whose signers are accused. -/
structure ProofOf (sender : VoteMsg → Except Err Address) (rep : List AffectedUnit)
    (bads : List Address) (mc : Address) (number : Nat) : Prop where
  first : ∃ u rest, rep = u :: rest ∧ u.header.mc = mc ∧ u.header.number = number
  mc_ne : mc.empty = false
  number_ne : number ≠ 0
  accepted : ∀ u ∈ rep, Accepted mc number u
  nodup : (rep.map (·.header.hash)).Nodup
  accused : ∀ a, a ∈ bads ↔ ∃ u ∈ rep, Signed sender u a
  accused_nodup : bads.Nodup

theorem checkProofWithState_spec {rep : List AffectedUnit} {bads : List Address}
    (hok : checkProofWithState scAccount sender getUnitState checkWitnessStatus rep = .ok bads) :
    ∃ mc number, ProofOf sender rep bads mc number := by
  match rep, hok with
  | first :: second :: rest, hok =>
    rw [checkProofWithState] at hok
    · obtain ⟨hmc, hok⟩ := guard_eq_ok_iff.mp hok
      simp only [guard_eq_ok_iff, bind_eq_ok_iff] at hok
      obtain ⟨hnumber, counts, hunits, -, hok⟩ := hok
      cases hok
      obtain ⟨hnodup, hmem, haccepted, hhashes, -⟩ := checkUnits_spec hunits (by simp)
      refine ⟨first.header.mc, first.header.number, ⟨first, _, rfl, rfl, rfl⟩,
        Bool.eq_false_of_not_eq_true hmc, hnumber, haccepted, hhashes, fun a => ?_, hnodup⟩
      rw [hmem a]
      simp
    · simp

end Signers

end Nerthus.Arbitration
