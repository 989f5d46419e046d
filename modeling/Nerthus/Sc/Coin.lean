import Nerthus.Sc.Types

/-!
# The weight of a public vote

`getCoin`. It goes back from the tail of the voter's chain to the last unit before the
voting began, but over no more than 1024 units.
-/

namespace Nerthus.Sc

structure CoinHeader where
  scNumber : Nat
  parentHash : Hash
deriving DecidableEq

structure VoterChain where
  tailHash : Hash
  genesisHash : Hash
  /-- `GetHeaderByHash`, by the hash of the header. -/
  header : Hash → Option CoinHeader
  /-- The balance of the voter in the state of a unit, if `GetUnitState` finds it. -/
  state : Hash → Option Int
  genesis : ∃ parent, header genesisHash = some ⟨0, parent⟩ ∧ header parent = none

inductive CoinErr where
  | unitNotFound
  | noState
  | noCoin
deriving DecidableEq

namespace VoterChain

variable (c : VoterChain) (numberVote : Nat)

def getBalance : Int := (c.state c.tailHash).getD 0

/-- The loop; `none` is a coin that was not set. -/
def walk : Nat → Hash → Except CoinErr (Option Int)
  | 0, _ => .ok none
  | turns + 1, lastHash =>
    match c.header lastHash with
    | none => .error .unitNotFound
    | some sourceHeader =>
      if sourceHeader.scNumber < numberVote then
        match c.state lastHash with
        | none => .error .noState
        | some coin => .ok (some coin)
      else walk turns sourceHeader.parentHash

/-- `none` is the run-time error of `Sign` on a nil pointer. -/
def getCoin : Option (Except CoinErr Int) :=
  match if c.tailHash = c.genesisHash then .ok (some c.getBalance)
    else c.walk numberVote 1024 c.tailHash with
  | .error e => some (.error e)
  | .ok none => none
  | .ok (some countCoin) => some (if countCoin ≤ 0 then .error .noCoin else .ok countCoin)

/-- The balance in the state of the last unit with a number below `numberVote`; none if a unit is
missing on the way. -/
inductive Found : Hash → Option Int → Prop where
  | missing {h : Hash} : c.header h = none → Found h none
  | here {h : Hash} {head : CoinHeader} : c.header h = some head → head.scNumber < numberVote →
      Found h (c.state h)
  | back {h : Hash} {head : CoinHeader} {coin : Option Int} : c.header h = some head →
      numberVote ≤ head.scNumber → Found head.parentHash coin → Found h coin

/-- `getCoin` returns the balance before the vote if it is positive, and else an error. -/
def WeighsRight : Prop :=
  ∃ coin result, c.Found numberVote c.tailHash coin ∧ c.getCoin numberVote = some result ∧
    result.toOption = coin.filter (0 < ·)

def LongTail : Nat → Hash → Prop
  | 0, _ => True
  | k + 1, h => ∃ head, c.header h = some head ∧ numberVote ≤ head.scNumber ∧ LongTail k head.parentHash

/-- A chain at its beginning is asked for its first unit or has no coin; another has a unit before
the vote, or misses one, among its last 1024. -/
def Near : Prop :=
  if c.tailHash = c.genesisHash then 0 < numberVote ∨ c.getBalance ≤ 0
  else ¬c.LongTail numberVote 1024 c.tailHash

variable {c numberVote}

theorem walk_spec (c : VoterChain) (numberVote k : Nat) (h : Hash) :
    c.walk numberVote k h = .ok none ∧ c.LongTail numberVote k h ∨
    ¬c.LongTail numberVote k h ∧
      ∃ coin, c.Found numberVote h coin ∧ (c.walk numberVote k h).toOption = coin.map some := by
  induction k generalizing h with
  | zero => exact .inl ⟨rfl, trivial⟩
  | succ k ih =>
    rw [walk, LongTail]
    cases hhead : c.header h with
    | none => exact .inr ⟨by simp, none, .missing hhead, rfl⟩
    | some head =>
      dsimp only
      split
      · next hlt =>
        refine .inr ⟨fun ⟨head', heq, hle, _⟩ => ?_, c.state h, .here hhead hlt, ?_⟩
        · cases heq
          omega
        · cases c.state h <;> rfl
      · next hle =>
        have hle : numberVote ≤ head.scNumber := Nat.not_lt.mp hle
        rcases ih head.parentHash with ⟨hwalk, hlong⟩ | ⟨hshort, coin, hfound, hwalk⟩
        · exact .inl ⟨hwalk, head, rfl, hle, hlong⟩
        · refine .inr ⟨fun ⟨head', heq, _, hlong⟩ => ?_, coin, .back hhead hle hfound, hwalk⟩
          cases heq
          exact hshort hlong

theorem found_zero {h : Hash} {coin : Option Int} (hfound : c.Found 0 h coin) : coin = none := by
  induction hfound with
  | missing _ => rfl
  | here _ hlt => exact absurd hlt (Nat.not_lt_zero _)
  | back _ _ _ ih => exact ih

theorem toOption_checked (coin : Int) :
    (if coin ≤ 0 then Except.error CoinErr.noCoin else .ok coin).toOption =
      (some coin).filter (0 < ·) := by
  by_cases h : coin ≤ 0
  · rw [if_pos h, Option.filter_some_neg (by simpa using h)]
    rfl
  · rw [if_neg h, Option.filter_some_pos (by simpa using h)]
    rfl

theorem weighsRight_iff_near : c.WeighsRight numberVote ↔ c.Near numberVote := by
  rw [WeighsRight, Near, getCoin]
  by_cases htail : c.tailHash = c.genesisHash
  · obtain ⟨parent, hgenesis, hparent⟩ := c.genesis
    rw [← htail] at hgenesis
    rw [if_pos htail, if_pos htail]
    rcases Nat.eq_zero_or_pos numberVote with rfl | hpos
    · -- No unit is before the number zero, but the balance is returned.
      have hfound : c.Found 0 c.tailHash none := .back hgenesis (Nat.zero_le _) (.missing hparent)
      constructor
      · rintro ⟨coin, result, hcoin, hresult, hweight⟩
        cases found_zero hcoin
        cases hresult
        rw [toOption_checked] at hweight
        exact .inr (by simpa using hweight)
      · intro hnear
        have hzero : c.getBalance ≤ 0 := hnear.resolve_left (Nat.lt_irrefl 0)
        exact ⟨none, _, hfound, rfl, by rw [if_pos hzero]; rfl⟩
    · refine iff_of_true ⟨c.state c.tailHash, _, .here hgenesis hpos, rfl, ?_⟩ (.inl hpos)
      rw [toOption_checked, getBalance]
      cases c.state c.tailHash <;> rfl
  · rw [if_neg htail, if_neg htail]
    rcases c.walk_spec numberVote 1024 c.tailHash with ⟨hwalk, hlong⟩ | ⟨hshort, coin, hfound, hwalk⟩
    · rw [hwalk]
      exact iff_of_false (fun ⟨_, _, _, hpanic, _⟩ => nomatch hpanic) (not_not.mpr hlong)
    · refine iff_of_true ?_ hshort
      cases hresult : c.walk numberVote 1024 c.tailHash with
      | error e =>
        rw [hresult] at hwalk
        exact ⟨coin, .error e, hfound, rfl, by rw [Option.map_eq_none_iff.mp hwalk.symm]; rfl⟩
      | ok value =>
        rw [hresult] at hwalk
        obtain ⟨found, rfl, rfl⟩ := Option.map_eq_some_iff.mp hwalk.symm
        exact ⟨some found, _, hfound, rfl, toOption_checked found⟩

inductive Leads (c : VoterChain) (numberVote : Nat) : Hash → Hash → Prop where
  | refl (h : Hash) : Leads c numberVote h h
  | back {h h' : Hash} {head : CoinHeader} : c.header h = some head → numberVote ≤ head.scNumber →
      Leads c numberVote head.parentHash h' → Leads c numberVote h h'

/-- Two nodes whose tails go back to a common unit over units with numbers not below
`numberVote`. -/
structure JoinBelow (c c' : VoterChain) (numberVote : Nat) : Prop where
  header : ∀ h head head', c.header h = some head → c'.header h = some head' → head = head'
  state : ∀ h coin coin', c.state h = some coin → c'.state h = some coin' → coin = coin'
  common : ∃ h, c.Leads numberVote c.tailHash h ∧ c'.Leads numberVote c'.tailHash h

theorem Found.cases {h : Hash} {coin : Int} (hfound : c.Found numberVote h (some coin)) :
    ∃ head, c.header h = some head ∧ (head.scNumber < numberVote ∧ c.state h = some coin ∨
      numberVote ≤ head.scNumber ∧ c.Found numberVote head.parentHash (some coin)) := by
  generalize hsome : some coin = found at hfound
  cases hfound with
  | missing _ => cases hsome
  | here hhead hlt => exact ⟨_, hhead, .inl ⟨hlt, rfl⟩⟩
  | back hhead hle hfound => exact ⟨_, hhead, .inr ⟨hle, hsome ▸ hfound⟩⟩

theorem Found.of_leads {h h' : Hash} {coin : Int} (hleads : c.Leads numberVote h h')
    (hfound : c.Found numberVote h (some coin)) : c.Found numberVote h' (some coin) := by
  induction hleads with
  | refl h => exact hfound
  | back hhead hle _ ih =>
    obtain ⟨head, hhead', hcases⟩ := hfound.cases
    cases hhead.symm.trans hhead'
    exact ih (hcases.resolve_left fun hlt => by omega).2

theorem JoinBelow.found_eq {c' : VoterChain} (hjoin : c.JoinBelow c' numberVote) {h : Hash}
    {coin coin' : Int} (hfound : c.Found numberVote h (some coin))
    (hfound' : c'.Found numberVote h (some coin')) : coin = coin' := by
  generalize hsome : some coin = found at hfound
  induction hfound with
  | missing _ => cases hsome
  | here hhead hlt =>
    obtain ⟨head', hhead', hcases⟩ := hfound'.cases
    cases hjoin.header _ _ _ hhead hhead'
    exact hjoin.state _ _ _ hsome.symm (hcases.resolve_right fun hle => by omega).2
  | back hhead hle _ ih =>
    obtain ⟨head', hhead', hcases⟩ := hfound'.cases
    cases hjoin.header _ _ _ hhead hhead'
    exact ih (hcases.resolve_left fun hlt => by omega).2 hsome

/-- The weight is right exactly if the unit before the vote is near the tail; then nodes whose tails
differ only in later units agree. -/
theorem weight_before_vote (c : VoterChain) (numberVote : Nat) :
    (c.WeighsRight numberVote ↔ c.Near numberVote) ∧
      ∀ c' coin coin', c.JoinBelow c' numberVote → c.Near numberVote → c'.Near numberVote →
        c.getCoin numberVote = some (.ok coin) → c'.getCoin numberVote = some (.ok coin') →
        coin = coin' := by
  refine ⟨weighsRight_iff_near, fun c' coin coin' hjoin hnear hnear' hcoin hcoin' => ?_⟩
  have hfound : ∀ {c : VoterChain} {coin : Int}, c.Near numberVote →
      c.getCoin numberVote = some (.ok coin) → c.Found numberVote c.tailHash (some coin) := by
    intro c coin hnear hcoin
    obtain ⟨found, result, hfound, hresult, hweight⟩ := weighsRight_iff_near.mpr hnear
    rw [hcoin] at hresult
    cases hresult
    rwa [(Option.filter_eq_some_iff.mp hweight.symm).1] at hfound
  obtain ⟨h, hleads, hleads'⟩ := hjoin.common
  exact hjoin.found_eq (.of_leads hleads (hfound hnear hcoin)) (.of_leads hleads' (hfound hnear' hcoin'))

def laterUnits (k : Nat) : VoterChain where
  tailHash := ⟨k⟩
  genesisHash := ⟨0⟩
  header h := if h.val = 0 then some ⟨0, ⟨k + 1⟩⟩ else if h.val ≤ k then some ⟨5, ⟨h.val - 1⟩⟩ else none
  state _ := some 100
  genesis := ⟨⟨k + 1⟩, by simp⟩

/-- The vote began at 5, and the voter's chain has had 1024 units since. -/
theorem long_chain_panics : (laterUnits 1024).getCoin 5 = none ∧
    (laterUnits 1023).getCoin 5 = some (.ok 100) := by
  decide +kernel

end VoterChain

end Nerthus.Sc
