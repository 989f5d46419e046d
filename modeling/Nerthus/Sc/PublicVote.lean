import Nerthus.Lib.Fuel
import Nerthus.Sc.StateSet

/-!
# The public vote on a proposal

`addProposalPublicVote` writes a vote into the cells of a proposal, `validProposalPass` reads them
back and counts. The share in favour is compared with two thirds of the total after a division
that rounds down.
-/

namespace Nerthus.Sc

open List Function
open Lib (bind_eq_ok_iff guard_eq_ok_iff)

inductive VotingResult where
  | unknown
  | agree
  | disagree
deriving DecidableEq

inductive ProposalType where
  | councilAdd
  | councilFire
  | configChange
  | sysWitnessCampaign
  | userWitnessCampaign
deriving DecidableEq

structure PublicVote where
  addr : Address
  value : Nat
  op : VotingResult
  time : Nat
deriving DecidableEq

/-- A vote as the cells keep it: a hash takes the last 32 bytes of the value. -/
def PublicVote.kept (v : PublicVote) : PublicVote := { v with value := v.value % 2 ^ 256 }

/-- The number of votes, the voter of each flag and the vote of each account, none while the cell of
its flag is empty. -/
structure PublicVotes where
  count : Nat
  voter : Nat → Hash
  getPublicVoteInfoByAddr : Address → Option PublicVote

structure VoteCall where
  gas : Nat
  address : Address
  countCoin : Int
  time : Nat
  b : Bool
deriving DecidableEq

def VoteCall.vote (c : VoteCall) : PublicVote :=
  { addr := c.address, value := c.countCoin.toNat, op := if c.b then .agree else .disagree
    time := c.time }

namespace PublicVotes

def blank : PublicVotes := ⟨0, fun _ => .zero, fun _ => none⟩

variable (p : PublicVotes)

def addPublicVote (v : PublicVote) : PublicVotes where
  count := p.count + 1
  voter := update p.voter (p.count + 1) v.addr.toHash
  getPublicVoteInfoByAddr := update p.getPublicVoteInfoByAddr v.addr (some v.kept)

def isMayPublicVote (address : Address) : Bool := (p.getPublicVoteInfoByAddr address).isNone

def getPublicVoteInfoByFlag (flag : Nat) : Option PublicVote :=
  let hash := p.voter flag
  if hash.emptyHash then none else p.getPublicVoteInfoByAddr hash.toAddress

/-- The votes `getPublicVoteList` passes to a function that asks for all; an error ends them. -/
def getPublicVoteList : List PublicVote :=
  (((range' 1 p.count).map p.getPublicVoteInfoByFlag).takeWhile Option.isSome).reduceOption

def addProposalPublicVote (c : VoteCall) : Except Err (PublicVotes × Nat) := do
  if c.countCoin ≤ 0 then throw (.other "the caller have not coin")
  let gas ← useGas c.gas Gas.sloadGas
  if !p.isMayPublicVote c.address then throw (.other "the target already vote, can't vote again")
  let gas ← useGas gas Gas.sloadGas
  return (p.addPublicVote c.vote, gas)

end PublicVotes

def inFavour (votes : List PublicVote) : Nat :=
  ((votes.filter (·.op = .agree)).map PublicVote.value).sum

def totalWeight (votes : List PublicVote) : Nat := (votes.map PublicVote.value).sum

def nts2Dot (nts : Nat) : Nat := nts * 10 ^ 12

section Pass

variable (config : String → Option Nat) (ptype : ProposalType)

def minAgreeKey : String :=
  if ptype = .configChange then "min_config_pvote_agree" else "min_council_pvote_agree"

/-- `none` is the panic at a missing item. -/
def checkMinVote (pass : Nat) : Option Bool :=
  if pass = 0 then some false
  else (config (minAgreeKey ptype)).map fun v => decide (nts2Dot v ≤ pass)

def validProposalPass (p : PublicVotes) : Option Bool := do
  let pass := inFavour p.getPublicVoteList
  let need := totalWeight p.getPublicVoteList
  if need = 0 then return false
  if !(← checkMinVote config ptype pass) then return false
  return decide (need / 3 * 2 < pass)

/-- The cells after calls, of which a failed one leaves them as they are. -/
def publicVotes (calls : List VoteCall) : PublicVotes :=
  calls.foldl (fun p c => ((p.addProposalPublicVote c).map Prod.fst).toOption.getD p) .blank

/-- The votes that count: the first of each account with a coin and the gas for it. -/
def accepted (calls : List VoteCall) : List PublicVote :=
  calls.foldl (fun votes c =>
    if 0 < c.countCoin ∧ 2 * Gas.sloadGas ≤ c.gas ∧ c.address ∉ votes.map PublicVote.addr
    then votes ++ [c.vote] else votes) []

/-- Each account is counted once, with its weight, and more than two thirds of the weight and the
minimum pass. -/
def CountsRight (calls : List VoteCall) : Prop :=
  ((accepted calls).map PublicVote.addr).Nodup ∧
    (publicVotes calls).getPublicVoteList = accepted calls ∧
    (validProposalPass config ptype (publicVotes calls) = some true ↔
      2 * totalWeight (accepted calls) < 3 * inFavour (accepted calls) ∧
        ∃ v ∈ config (minAgreeKey ptype), nts2Dot v ≤ inFavour (accepted calls))

/-- The weights fit into a cell, no voter is the empty address, and the division by three does not
round to just below the weight in favour. -/
def Exact (votes : List PublicVote) : Prop :=
  (∀ v ∈ votes, v.value < 2 ^ 256 ∧ v.addr ≠ Address.emptyAddress) ∧
    ¬(totalWeight votes % 3 = 2 ∧ inFavour votes = 2 * (totalWeight votes / 3) + 1 ∧
      ∃ v ∈ config (minAgreeKey ptype), nts2Dot v ≤ inFavour votes)

end Pass

structure Keeps (p : PublicVotes) (votes : List PublicVote) : Prop where
  nodup : (votes.map PublicVote.addr).Nodup
  voters : (range' 1 p.count).map p.voter = votes.map fun v => v.addr.toHash
  info : ∀ v ∈ votes, p.getPublicVoteInfoByAddr v.addr = some v.kept
  new : ∀ a, a ∉ votes.map PublicVote.addr ↔ p.isMayPublicVote a = true

theorem keeps_blank : Keeps .blank [] :=
  ⟨nodup_nil, rfl, by simp, by simp [PublicVotes.isMayPublicVote, PublicVotes.blank]⟩

theorem Keeps.addPublicVote {p : PublicVotes} {votes : List PublicVote} (h : Keeps p votes)
    {v : PublicVote} (hv : v.addr ∉ votes.map PublicVote.addr) :
    Keeps (p.addPublicVote v) (votes ++ [v]) where
  nodup := by
    rw [map_append]
    exact h.nodup.append (nodup_singleton _) (disjoint_singleton.mpr hv)
  voters := by
    have hold : ∀ i ∈ range' 1 p.count, (p.addPublicVote v).voter i = p.voter i := fun i hi =>
      update_of_ne (by have := mem_range'_1.mp hi; omega) _ _
    rw [map_append, ← h.voters, ← map_congr_left hold]
    simp [PublicVotes.addPublicVote, range'_concat, Nat.add_comm]
  info := by
    intro w hw
    rcases mem_append.mp hw with hold | hlast
    · have hne : w.addr ≠ v.addr := fun heq => hv (heq ▸ mem_map_of_mem hold)
      exact (update_of_ne hne _ _).trans (h.info w hold)
    · rw [mem_singleton.mp hlast]
      exact update_self _ _ _
  new := by
    intro a
    by_cases ha : a = v.addr
    · simp [ha, PublicVotes.isMayPublicVote, PublicVotes.addPublicVote]
    · have := h.new a
      simp_all [PublicVotes.isMayPublicVote, PublicVotes.addPublicVote]

theorem addProposalPublicVote_eq_ok_iff {p : PublicVotes} {c : VoteCall} {result : PublicVotes × Nat} :
    p.addProposalPublicVote c = .ok result ↔
      (0 < c.countCoin ∧ 2 * Gas.sloadGas ≤ c.gas ∧ p.isMayPublicVote c.address = true) ∧
        result = (p.addPublicVote c.vote, c.gas - 2 * Gas.sloadGas) := by
  simp only [PublicVotes.addProposalPublicVote, guard_eq_ok_iff, bind_eq_ok_iff, useGas_eq_ok_iff]
  constructor
  · rintro ⟨hcoin, _, ⟨hfirst, rfl⟩, hmay, _, ⟨hsecond, rfl⟩, hresult⟩
    refine ⟨⟨Int.not_le.mp hcoin, by omega, by simpa using hmay⟩, ?_⟩
    rw [Nat.sub_sub, ← Nat.two_mul] at hresult
    exact (Except.ok.inj hresult).symm
  · rintro ⟨⟨hcoin, hgas, hmay⟩, rfl⟩
    refine ⟨Int.not_le.mpr hcoin, _, ⟨by omega, rfl⟩, by simpa using hmay, _, ⟨by omega, rfl⟩, ?_⟩
    rw [Nat.sub_sub, ← Nat.two_mul]
    rfl

theorem keeps_publicVotes (calls : List VoteCall) : Keeps (publicVotes calls) (accepted calls) := by
  induction calls using reverseRecOn with
  | nil => exact keeps_blank
  | append_singleton calls c ih =>
    rw [publicVotes, accepted, foldl_append, foldl_append, ← publicVotes, ← accepted]
    have hcall := @addProposalPublicVote_eq_ok_iff (publicVotes calls) c
    rw [← ih.new] at hcall
    rw [foldl_cons, foldl_cons]
    split
    · next hok =>
      rw [hcall.mpr ⟨hok, rfl⟩]
      exact ih.addPublicVote hok.2.2
    · next hno =>
      cases hresult : (publicVotes calls).addProposalPublicVote c with
      | error e => exact ih
      | ok result => exact absurd (hcall.mp hresult).1 hno

theorem PublicVote.kept_eq_iff {v : PublicVote} : v.kept = v ↔ v.value < 2 ^ 256 := by
  cases v
  simp [kept]

def PublicVote.readBack (v : PublicVote) : Option PublicVote :=
  if v.addr.toHash.emptyHash then none else some v.kept

theorem Keeps.getPublicVoteList {p : PublicVotes} {votes : List PublicVote} (h : Keeps p votes) :
    p.getPublicVoteList =
      ((votes.map PublicVote.readBack).takeWhile Option.isSome).reduceOption := by
  let read (hash : Hash) : Option PublicVote :=
    if hash.emptyHash then none else p.getPublicVoteInfoByAddr hash.toAddress
  have hread : (range' 1 p.count).map p.getPublicVoteInfoByFlag =
      votes.map PublicVote.readBack := by
    calc (range' 1 p.count).map p.getPublicVoteInfoByFlag
        = ((range' 1 p.count).map p.voter).map read := by rw [map_map]; rfl
      _ = (votes.map fun v => v.addr.toHash).map read := by rw [h.voters]
      _ = votes.map PublicVote.readBack := by
          rw [map_map]
          refine map_congr_left fun v hv => ?_
          change ite _ _ _ = ite _ _ _
          rw [Address.toAddress_toHash, h.info v hv]
  rw [PublicVotes.getPublicVoteList, hread]

theorem readBack_eq_self_iff {votes : List PublicVote} :
    ((votes.map PublicVote.readBack).takeWhile Option.isSome).reduceOption = votes ↔
      ∀ v ∈ votes, v.value < 2 ^ 256 ∧ v.addr ≠ Address.emptyAddress := by
  induction votes with
  | nil => simp [reduceOption]
  | cons v votes ih =>
    have hempty : v.addr.toHash.emptyHash = true ↔ v.addr = Address.emptyAddress := by
      rw [Hash.emptyHash_iff]
      exact Address.toHash_injective.eq_iff (b := Address.emptyAddress)
    rw [forall_mem_cons, ← ih, map_cons, PublicVote.readBack]
    split
    · next hv => simp [hempty.mp hv, reduceOption]
    · next hv =>
      rw [takeWhile_cons_of_pos rfl, reduceOption_cons_of_some, cons.injEq, PublicVote.kept_eq_iff]
      simp [mt hempty.mpr hv]

theorem validProposalPass_iff {config : String → Option Nat} {ptype : ProposalType}
    {p : PublicVotes} :
    validProposalPass config ptype p = some true ↔
      totalWeight p.getPublicVoteList / 3 * 2 < inFavour p.getPublicVoteList ∧
        ∃ v ∈ config (minAgreeKey ptype), nts2Dot v ≤ inFavour p.getPublicVoteList := by
  have hle : inFavour p.getPublicVoteList ≤ totalWeight p.getPublicVoteList :=
    (filter_sublist.map _).sum_le_sum fun _ _ => Nat.zero_le _
  rw [validProposalPass, checkMinVote]
  by_cases hpass : inFavour p.getPublicVoteList = 0
  · simp [hpass]
  · have htotal : totalWeight p.getPublicVoteList ≠ 0 := by omega
    cases config (minAgreeKey ptype) with
    | none => simp [hpass, htotal]
    | some v =>
      by_cases hmin : nts2Dot v ≤ inFavour p.getPublicVoteList <;> simp [hpass, htotal, hmin]

theorem countsRight_iff_exact (config : String → Option Nat) (ptype : ProposalType)
    (calls : List VoteCall) :
    CountsRight config ptype calls ↔ Exact config ptype (accepted calls) := by
  have hkeeps := keeps_publicVotes calls
  rw [CountsRight, Exact, ← readBack_eq_self_iff, ← hkeeps.getPublicVoteList, validProposalPass_iff]
  refine (and_iff_right hkeeps.nodup).trans (and_congr_right fun hlist => ?_)
  rw [hlist]
  generalize totalWeight (accepted calls) = total, inFavour (accepted calls) = pass
  generalize (∃ v ∈ config (minAgreeKey ptype), nts2Dot v ≤ pass) = enough
  by_cases henough : enough
  · simp only [henough, and_true]
    omega
  · simp [henough]

/-- One dot short of two thirds, and the proposal passes. -/
theorem two_thirds_rounded_down :
    let calls : List VoteCall := [⟨100, ⟨1⟩, 2 * 10 ^ 18 + 1, 0, true⟩, ⟨100, ⟨2⟩, 10 ^ 18 + 1, 0, false⟩]
    let config : String → Option Nat := fun _ => some 1000000
    validProposalPass config .councilAdd (publicVotes calls) = some true ∧
      3 * inFavour (accepted calls) < 2 * totalWeight (accepted calls) := by
  decide

end Nerthus.Sc
