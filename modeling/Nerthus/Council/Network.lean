import Nerthus.Council.Calls
import Nerthus.Lib.Quorum

/-!
# Agreement of the council

Many members with a core each, under a network that delays, repeats, reorders and alters
messages but cannot forge signatures. Votes of both phases carry the same signature. An honest
member signs its own proposal, and the hash it has locked, which needs the signatures of more
than two thirds of the council.

A core keeps votes for heights it has not reached; when it reaches them, the council may be
another one.
-/

namespace Nerthus.Council

open Lib Core List

/-- The council at each height, who is honest, and what an honest member proposes. -/
structure Network where
  councilsAt : Nat → List Address
  nodup : ∀ n, (councilsAt n).Nodup
  honest : Address → Bool
  proposalOf : Address → Nat → Hash
  few : ∀ n, 3 * (councilsAt n).countP (fun a => !honest a) < (councilsAt n).length

structure Committed where
  member : Address
  proposal : Proposal
  seals : List WitenssVote
deriving DecidableEq

structure System where
  core : Address → Core
  tail : Address → Nat
  signed : List SignContent
  commits : List Committed

structure Move where
  member : Address
  backend : Backend
  call : Call

def Output.signature : Output → Option SignContent
  | .broadcast msg => msg.sign
  | _ => none

def Output.committed (a : Address) : Output → Option Committed
  | .commit p seals => some ⟨a, p, seals⟩
  | _ => none

namespace System

def init (tail : Address → Nat) : System := ⟨fun a => newCore a true, tail, [], []⟩

def after (s : System) (a : Address) (b : Backend) (t : Core) (out : List Output) : System :=
  { core := Function.update s.core a t
    tail := Function.update s.tail a b.scTail
    signed := s.signed ++ out.filterMap Output.signature
    commits := s.commits ++ out.filterMap (Output.committed a) }

def next (s : System) (mv : Move) : System :=
  match step mv.backend (s.core mv.member) mv.call with
  | .ok (t, out) => s.after mv.member mv.backend t out
  | .error _ => s

def run (s : System) : List Move → System
  | [] => s
  | mv :: rest => (s.next mv).run rest

end System

/-- What a core is about to do, apart from the votes it has. -/
def Core.role (t : Core) : Address × Nat × List Address × Option Proposal × State × Hash :=
  (t.address, t.scTail, t.councils, t.proposal, t.state, t.lockHash)

variable {d : Hash} {votes : List CouncilMessage}

namespace Network

variable (net : Network)

/-- The member is honest, its chain does not shrink, all chains have one council at a height, the
member has one proposal for it, and nobody forges an honest signature. -/
structure Allows (s : System) (mv : Move) : Prop where
  honest : net.honest mv.member = true
  grows : s.tail mv.member ≤ mv.backend.scTail
  councils : ∀ l, mv.backend.getCouncils = some l → l = net.councilsAt mv.backend.scTail
  proposal : ∀ p, mv.backend.generateProposal = some p →
    p = ⟨net.proposalOf mv.member mv.backend.scTail, mv.backend.scTail + 1⟩
  unforged : ∀ msg, mv.call = .handleVote msg → ∀ sig, msg.sign = some sig →
    net.honest sig.signer = true → sig ∈ s.signed

def Call.signature : Call → Option SignContent
  | .handleVote msg => msg.sign
  | _ => none

instance (s : System) (mv : Move) : Decidable (net.Allows s mv) :=
  decidable_of_iff
    (net.honest mv.member = true ∧ s.tail mv.member ≤ mv.backend.scTail ∧
      (∀ l ∈ mv.backend.getCouncils, l = net.councilsAt mv.backend.scTail) ∧
      (∀ p ∈ mv.backend.generateProposal,
        p = ⟨net.proposalOf mv.member mv.backend.scTail, mv.backend.scTail + 1⟩) ∧
      ∀ sig ∈ Call.signature mv.call, net.honest sig.signer = true → sig ∈ s.signed)
    ⟨fun ⟨h₁, h₂, h₃, h₄, h₅⟩ => ⟨h₁, h₂, h₃, h₄, fun msg hmsg sig hsig => h₅ sig (by
      rw [hmsg]
      exact hsig)⟩,
    fun h => ⟨h.honest, h.grows, h.councils, h.proposal, fun sig hsig => by
      cases hcall : mv.call with
      | handleVote msg =>
        rw [hcall] at hsig
        exact h.unforged msg hcall sig hsig
      | _ =>
        rw [hcall] at hsig
        cases hsig⟩⟩

def AllowsRun (s : System) : List Move → Prop
  | [] => True
  | mv :: rest => net.Allows s mv ∧ AllowsRun (s.next mv) rest

instance decidableAllowsRun (s : System) : (moves : List Move) → Decidable (net.AllowsRun s moves)
  | [] => isTrue trivial
  | mv :: rest =>
    have := decidableAllowsRun (s.next mv) rest
    inferInstanceAs (Decidable (net.Allows s mv ∧ net.AllowsRun (s.next mv) rest))

/-- The stored votes for the height of the chain are of members of the council there. -/
def OfMembers (b : Backend) (t : Core) : Prop :=
  ∀ v ∈ t.first ++ t.second, v.scTail = b.scTail → v.sender ∈ net.councilsAt b.scTail
deriving Decidable

/-- `Start` is not called on a voting core. When an idle core may begin to vote, the votes it has
for its height are of members of the council. -/
def Orderly (b : Backend) (t : Core) : Call → Prop
  | .start => t.state = .running
  | .active => t.state = .running → net.OfMembers b t
  | .handleVote msg => t.state = .running → net.OfMembers b t ∧
      (msg.scTail = b.scTail → msg.sender ∈ net.councilsAt b.scTail)
  | _ => True

instance (b : Backend) (t : Core) : (c : Call) → Decidable (net.Orderly b t c)
  | .start => inferInstanceAs (Decidable (_ = _))
  | .active => inferInstanceAs (Decidable (_ → _))
  | .handleVote _ => inferInstanceAs (Decidable (_ → _ ∧ (_ → _)))
  | .stop | .expire | .resend => isTrue trivial

def OrderlyRun (s : System) : List Move → Prop
  | [] => True
  | mv :: rest =>
    net.Orderly mv.backend (s.core mv.member) mv.call ∧ OrderlyRun (s.next mv) rest

instance decidableOrderlyRun (s : System) :
    (moves : List Move) → Decidable (net.OrderlyRun s moves)
  | [] => isTrue trivial
  | mv :: rest =>
    have := decidableOrderlyRun (s.next mv) rest
    inferInstanceAs (Decidable (net.Orderly mv.backend (s.core mv.member) mv.call ∧
      net.OrderlyRun (s.next mv) rest))

def Sealed (x : Committed) : Prop :=
  ∃ (n : Nat) (signers : List Address), x.proposal.number = n + 1 ∧
    x.seals = signers.map (fun a => ⟨n, some ⟨a, x.proposal.hash, n⟩⟩) ∧
    signers.Nodup ∧ (∀ a ∈ signers, a ∈ net.councilsAt n) ∧
    2 * (net.councilsAt n).length < 3 * signers.length

structure Agreed (s : System) : Prop where
  same : ∀ x ∈ s.commits, ∀ y ∈ s.commits,
    x.proposal.number = y.proposal.number → x.proposal = y.proposal
  isSealed : ∀ x ∈ s.commits, net.Sealed x

/-- More than two thirds of the council have proposed the hash, the faulty members counted in. -/
def Backed (d : Hash) (n : Nat) : Prop :=
  (net.councilsAt n).length * 2 / 3 <
    (supporters (fun a => !net.honest a) (fun a => net.proposalOf a n) (net.councilsAt n) d).length

theorem Backed.unique {net : Network} {d' : Hash} {n : Nat} (h : net.Backed d n)
    (h' : net.Backed d' n) : d = d' :=
  eq_of_supported _ _ (net.few n) h h'

def Allowed (sig : SignContent) : Prop :=
  sig.dist = net.proposalOf sig.signer sig.scTail ∨ net.Backed sig.dist sig.scTail

def Vouched (signed : List SignContent) (v : CouncilMessage) : Prop :=
  v.sign = some ⟨v.sender, v.dist, v.scTail⟩ ∧
    (net.honest v.sender = true → ⟨v.sender, v.dist, v.scTail⟩ ∈ signed)

structure Counted (signed : List SignContent) (n : Nat) (votes : List CouncilMessage) : Prop where
  nodup : (votes.map CouncilMessage.sender).Nodup
  vouched : ∀ v ∈ votes, net.Vouched signed v
  scTail : ∀ v ∈ votes, v.scTail = n
  member : ∀ v ∈ votes, v.sender ∈ net.councilsAt n

variable {net}

theorem verifySign_eq_some {msg : CouncilMessage} {a : Address} (h : verifySign msg = some a) :
    msg.sign = some ⟨a, msg.dist, msg.scTail⟩ := by
  unfold verifySign at h
  split at h
  · next s hs =>
    split at h
    · next heq =>
      cases h
      rw [hs]
      obtain ⟨hd, hn⟩ := Prod.mk.inj heq
      rw [← hd, ← hn]
    · cases h
  · cases h

def votersFor (votes : List CouncilMessage) (d : Hash) : List Address :=
  (votes.filter fun v => v.dist = d).map CouncilMessage.sender

theorem length_votersFor (votes : List CouncilMessage) (d : Hash) :
    (votersFor votes d).length = votes.countP fun v => v.dist = d := by
  rw [votersFor, length_map, ← countP_eq_length_filter]

theorem mem_votersFor {a : Address} :
    a ∈ votersFor votes d ↔ ∃ v ∈ votes, v.dist = d ∧ v.sender = a := by
  simp [votersFor, and_assoc]

theorem Counted.nodup_votersFor {signed : List SignContent} {n : Nat}
    (h : net.Counted signed n votes) (d : Hash) : (votersFor votes d).Nodup :=
  h.nodup.sublist (filter_sublist.map _)

/-- Votes of more than two thirds show support: an honest voter proposed the hash, or signed it
because it had support before. -/
theorem Counted.backed {signed : List SignContent} {n : Nat} (h : net.Counted signed n votes)
    (hsigned : ∀ sig ∈ signed, net.Allowed sig)
    (hcount : (net.councilsAt n).length * 2 / 3 < votes.countP fun v => v.dist = d) :
    net.Backed d n := by
  by_contra hnot
  have hsub : votersFor votes d ⊆ supporters (fun a => !net.honest a)
      (fun a => net.proposalOf a n) (net.councilsAt n) d := by
    intro a ha
    obtain ⟨v, hv, hd, rfl⟩ := mem_votersFor.mp ha
    refine mem_filter.mpr ⟨h.member v hv, ?_⟩
    cases hhonest : net.honest v.sender with
    | false => simp [hhonest]
    | true =>
      have hsig := hsigned _ ((h.vouched v hv).2 hhonest)
      rw [Allowed, hd, h.scTail v hv] at hsig
      rcases hsig with hown | hbacked
      · have hown' : net.proposalOf v.sender n = d := hown.symm
        simp [hown']
      · exact absurd hbacked hnot
  have hle := ((h.nodup_votersFor d).subperm hsub).length_le
  rw [length_votersFor] at hle
  exact hnot (lt_of_lt_of_le hcount hle)

/-! ## The core of an honest member -/

structure NodeInv (net : Network) (signed : List SignContent) (a : Address) (tail : Nat)
    (t : Core) : Prop where
  address : t.address = a
  le : t.scTail ≤ tail
  councils : t.councils = [] ∨ t.councils = net.councilsAt t.scTail
  vouched : ∀ v ∈ t.first ++ t.second, net.Vouched signed v
  idle : t.state = .running → t.proposal = none
  unlocked : t.state = .running ∨ t.state = .stop → t.lockHash = .zero
  voting : t.state ≠ .running →
    t.proposal = some ⟨net.proposalOf a t.scTail, t.scTail + 1⟩ ∧
      ∀ v ∈ t.first ++ t.second, v.scTail = t.scTail ∧ v.sender ∈ net.councilsAt t.scTail
  backed : t.state = .prepare ∨ t.state = .commited → net.Backed t.lockHash t.scTail
  locked : t.state = .prepare → t.lockHash ≠ .zero → ∀ v ∈ t.second, v.dist = t.lockHash

def Sound (net : Network) (a : Address) : Output → Prop
  | .broadcast msg => ∃ sig, msg.sign = some sig ∧ sig.signer = a ∧ net.Allowed sig
  | .commit p seals => net.Sealed ⟨a, p, seals⟩ ∧
      ∃ n, p.number = n + 1 ∧ net.Backed p.hash n
  | .activated => True

namespace NodeInv

variable {signed signed' : List SignContent} {a : Address} {tail tail' : Nat} {b : Backend}
  {t t' : Core} {msg : CouncilMessage} {out : List Output} {r : Reply}

theorem mono (h : NodeInv net signed a tail t) (hsub : ∀ sig ∈ signed, sig ∈ signed')
    (hle : tail ≤ tail') : NodeInv net signed' a tail' t :=
  { h with
    le := le_trans h.le hle
    vouched := fun v hv => ⟨(h.vouched v hv).1, fun hh => hsub _ ((h.vouched v hv).2 hh)⟩ }

theorem of_running (haddr : t.address = a) (hle : t.scTail ≤ tail)
    (hcouncils : t.councils = [] ∨ t.councils = net.councilsAt t.scTail)
    (hvouched : ∀ v ∈ t.first ++ t.second, net.Vouched signed v) (hstate : t.state = .running)
    (hproposal : t.proposal = none) (hlock : t.lockHash = .zero) : NodeInv net signed a tail t where
  address := haddr
  le := hle
  councils := hcouncils
  vouched := hvouched
  idle _ := hproposal
  unlocked _ := hlock
  voting hs := absurd hstate hs
  backed hs := by rw [hstate] at hs; exact absurd hs (by decide)
  locked hs := by rw [hstate] at hs; cases hs

section

variable (h : NodeInv net signed a tail t)
include h

theorem revise (hrole : t'.role = t.role)
    (hvotes : ∀ v ∈ t'.first ++ t'.second, v ∈ t.first ++ t.second ∨ net.Vouched signed v ∧
      v.sender ∈ net.councilsAt t.scTail ∧ (t.state ≠ .running → v.scTail = t.scTail))
    (hlocked : t.state = .prepare → t.lockHash ≠ .zero → ∀ v ∈ t'.second, v.dist = t.lockHash) :
    NodeInv net signed a tail t' := by
  simp only [role, Prod.mk.injEq] at hrole
  obtain ⟨haddr, htail, hcouncils, hproposal, hstate, hlock⟩ := hrole
  refine ⟨?_, ?_, ?_, fun v hv => (hvotes v hv).elim (h.vouched v) And.left, ?_, ?_, ?_, ?_, ?_⟩
  all_goals simp only [haddr, htail, hcouncils, hproposal, hstate, hlock]
  · exact h.address
  · exact h.le
  · exact h.councils
  · exact h.idle
  · exact h.unlocked
  · exact fun hs => ⟨(h.voting hs).1, fun v hv => (hvotes v hv).elim ((h.voting hs).2 v) fun hnew =>
      ⟨hnew.2.2 hs, hnew.2.1⟩⟩
  · exact h.backed
  · exact hlocked

theorem drop (hrole : t'.role = t.role) (hfirst : ∀ v ∈ t'.first, v ∈ t.first)
    (hsecond : ∀ v ∈ t'.second, v ∈ t.second) :
    NodeInv net signed a tail t' :=
  h.revise hrole (fun v hv => .inl (mem_append.mpr ((mem_append.mp hv).imp (hfirst v)
    (hsecond v)))) fun hs hz v hv => h.locked hs hz v (hsecond v hv)

theorem settle {s : State} (hvoting : t.state ≠ .running) (hs : s = .prepare ∨ s = .commited)
    (hbacked : net.Backed d t.scTail)
    (hrole : t'.role = (t.address, t.scTail, t.councils, t.proposal, s, d))
    (hfirst : t'.first = t.first)
    (hsecond : ∀ v ∈ t'.second, v ∈ t.second ∧ (s = .prepare → v.dist = d)) :
    NodeInv net signed a tail t' := by
  simp only [role, Prod.mk.injEq] at hrole
  obtain ⟨haddr, htail, hcouncils, hproposal, hstate, hlock⟩ := hrole
  have hsub : ∀ v ∈ t'.first ++ t'.second, v ∈ t.first ++ t.second := by
    rw [hfirst]
    exact fun v hv => mem_append.mpr ((mem_append.mp hv).imp_right fun hv => (hsecond v hv).1)
  refine ⟨?_, ?_, ?_, fun v hv => h.vouched v (hsub v hv), ?_, ?_, ?_, ?_, ?_⟩
  all_goals simp only [haddr, htail, hcouncils, hproposal, hstate, hlock]
  · exact h.address
  · exact h.le
  · exact h.councils
  · rintro rfl
    exact absurd hs (by decide)
  · rintro (rfl | rfl) <;> exact absurd hs (by decide)
  · exact fun _ => ⟨(h.voting hvoting).1, fun v hv => (h.voting hvoting).2 v (hsub v hv)⟩
  · exact fun _ => hbacked
  · exact fun hs _ v hv => (hsecond v hv).2 hs

theorem counted (votes : Votes) (hstate : t.state ≠ .running)
    (hsub : ∀ v ∈ votes.values, v ∈ t.first ++ t.second) :
    net.Counted signed t.scTail votes.values :=
  ⟨votes.nodup, fun v hv => h.vouched v (hsub v hv),
    fun v hv => ((h.voting hstate).2 v (hsub v hv)).1,
    fun v hv => ((h.voting hstate).2 v (hsub v hv)).2⟩

theorem councils_of_mem {x : Address} (hx : x ∈ t.councils) :
    t.councils = net.councilsAt t.scTail := by
  rcases h.councils with hnil | heq
  · rw [hnil] at hx
    cases hx
  · exact heq

theorem sound_vote1 (hstate : t.state ≠ .running) {p : Proposal} (hp : t.proposal = some p) :
    Sound net a (.broadcast (t.vote1 p)) := by
  have hown := (h.voting hstate).1
  rw [hp] at hown
  cases hown
  refine ⟨_, rfl, h.address, .inl ?_⟩
  rw [h.address]

theorem sound_vote2 (hstate : t.state = .prepare ∨ t.state = .commited) :
    Sound net a (.broadcast t.vote2) :=
  ⟨_, rfl, h.address, .inr (h.backed hstate)⟩

end

end NodeInv

section Handlers

variable {signed : List SignContent} {a : Address} {tail : Nat} {b : Backend}
  {t t' : Core} {msg : CouncilMessage} {out : List Output} {r : Reply}

theorem refresh_scTail (hle : t.scTail ≤ b.scTail) : (refresh b t).scTail = b.scTail := by
  unfold refresh
  split
  · rfl
  · omega

theorem refresh_councils (hle : t.scTail ≤ b.scTail)
    (hcouncils : ∀ l, b.getCouncils = some l → l = net.councilsAt b.scTail)
    (h : t.councils = [] ∨ t.councils = net.councilsAt t.scTail) :
    (refresh b t).councils = [] ∨ (refresh b t).councils = net.councilsAt b.scTail := by
  unfold refresh
  split
  · cases hget : b.getCouncils with
    | none => exact .inl rfl
    | some l => exact .inr (hcouncils l hget)
  · have heq : t.scTail = b.scTail := by omega
    rw [← heq]
    exact h

theorem NodeInv.refresh (h : NodeInv net signed a tail t) (hle : t.scTail ≤ b.scTail)
    (hcouncils : ∀ l, b.getCouncils = some l → l = net.councilsAt b.scTail)
    (hstate : t.state = .running) : NodeInv net signed a b.scTail (refresh b t) := by
  have hsecond : (Council.refresh b t).second = t.second := by
    rw [second, refresh_votes2, second]
  refine .of_running ?_ ?_ ?_ ?_ ?_ ?_ ?_
  · rw [refresh_address, h.address]
  · rw [refresh_scTail hle]
  · rw [refresh_scTail hle]
    exact refresh_councils hle hcouncils h.councils
  · rw [refresh_first, hsecond]
    exact h.vouched
  · rw [refresh_state, hstate]
  · rw [refresh_eq]
    exact h.idle hstate
  · rw [refresh_lockHash, h.unlocked (.inl hstate)]

theorem mem_activate {p : Proposal} {v : CouncilMessage}
    (hv : v ∈ (activate p t).first ++ (activate p t).second) :
    v ∈ t.first ++ t.second ∧ v.scTail = t.scTail := by
  unfold activate first second at hv
  rw [Keyed.values_map_filter, Keyed.values_map_filter, ← filter_append] at hv
  exact (mem_filter.mp hv).imp_right of_decide_eq_true

theorem active_inv {n : Nat} (h : NodeInv net signed a tail t) (hle : tail ≤ b.scTail)
    (hcouncils : ∀ l, b.getCouncils = some l → l = net.councilsAt b.scTail)
    (hproposal : ∀ p, b.generateProposal = some p →
      p = ⟨net.proposalOf a b.scTail, b.scTail + 1⟩)
    (hmembers : t.state = .running → net.OfMembers b t) (hactive : active b n t = .ok (t', out)) :
    NodeInv net signed a b.scTail t' ∧ ∀ o ∈ out, Sound net a o := by
  have htail : t.scTail ≤ b.scTail := le_trans h.le hle
  rcases active_cases hactive with
    ⟨rfl, rfl⟩ | ⟨hstate, rfl, rfl | rfl⟩ | ⟨p, hstate, hp, -, rfl, hout⟩
  · exact ⟨h.mono (fun _ hs => hs) hle, nofun⟩
  · exact ⟨h.refresh htail hcouncils hstate, nofun⟩
  · have href := h.refresh htail hcouncils hstate
    have hrun : (refresh b t).state = .running := by rw [refresh_state, hstate]
    refine ⟨href.drop ?_ (fun _ hv => hv) fun _ hv => hv, nofun⟩
    rw [role, role, href.idle hrun]
  · have href := h.refresh htail hcouncils hstate
    have hsame : (refresh b t).scTail = b.scTail := refresh_scTail htail
    have hsecond : (refresh b t).second = t.second := by
      rw [second, refresh_votes2, second]
    have hinv : NodeInv net signed a b.scTail (activate p (refresh b t)) := by
      constructor
      · exact href.address
      · exact href.le
      · exact href.councils
      · exact fun v hv => href.vouched v (mem_activate hv).1
      · intro hs
        cases hs
      · exact fun _ => href.unlocked (.inl (by rw [refresh_state, hstate]))
      · refine fun _ => ⟨?_, fun v hv => ?_⟩
        · change some p = some ⟨net.proposalOf a (refresh b t).scTail, (refresh b t).scTail + 1⟩
          rw [hproposal p hp, hsame]
        obtain ⟨hv, hvtail⟩ := mem_activate hv
        refine ⟨hvtail, ?_⟩
        rw [refresh_first, hsecond] at hv
        change v.sender ∈ net.councilsAt (refresh b t).scTail
        rw [hsame] at hvtail ⊢
        exact hmembers hstate v hv hvtail
      · rintro (hs | hs) <;> cases hs
      · intro hs
        cases hs
    refine ⟨hinv, fun o ho => ?_⟩
    rcases hout o ho with rfl | rfl
    · trivial
    · exact hinv.sound_vote1 (by simp [activate]) rfl

theorem second_lockDist (d : Hash) : (t.lockDist d).second =
    if t.state = .stop then t.second.filter fun v => v.dist = d else t.second := by
  unfold lockDist second
  split
  · exact Keyed.values_map_filter _ _
  · rfl

theorem NodeInv.lock (h : NodeInv net signed a tail t) (hsigned : ∀ sig ∈ signed, net.Allowed sig)
    (hcouncils : t.councils = net.councilsAt t.scTail) (hstate : t.state = .stop)
    (hd : decided t.first t.majority32 = some d) :
    NodeInv net signed a tail { t.lockDist d with state := .prepare } := by
  have hvoting : t.state ≠ .running := by rw [hstate]; decide
  have hcount := lt_countP_of_decided hd
  rw [majority32, hcouncils] at hcount
  have hbacked := (h.counted _ hvoting fun v => mem_append_left _).backed hsigned hcount
  refine h.settle hvoting (.inl rfl) hbacked rfl rfl fun v hv => ?_
  change v ∈ (t.lockDist d).second at hv
  rw [second_lockDist, if_pos hstate] at hv
  exact (mem_filter.mp hv).imp_right fun hdist _ => of_decide_eq_true hdist

structure Incoming (net : Network) (signed : List SignContent) (a : Address) (b : Backend)
    (t : Core) (msg : CouncilMessage) : Prop where
  councils : ∀ l, b.getCouncils = some l → l = net.councilsAt b.scTail
  proposal : ∀ p, b.generateProposal = some p → p = ⟨net.proposalOf a b.scTail, b.scTail + 1⟩
  unforged : ∀ sig, msg.sign = some sig → net.honest sig.signer = true → sig ∈ signed
  members : t.state = .running → net.OfMembers b t ∧
    (msg.scTail = b.scTail → msg.sender ∈ net.councilsAt b.scTail)

theorem Incoming.vouched (h : Incoming net signed a b t msg) (hverified : Verified t msg) :
    net.Vouched signed msg :=
  ⟨verifySign_eq_some hverified.signed, h.unforged _ (verifySign_eq_some hverified.signed)⟩

theorem NodeInv.store (h : NodeInv net signed a tail t) (hmsg : Incoming net signed a b t msg)
    (hverified : Verified t msg) (hrole : t'.role = t.role)
    (hfirst : ∀ v ∈ t'.first, v = msg ∨ v ∈ t.first)
    (hsecond : ∀ v ∈ t'.second, v ∈ t.second ∨ v = msg ∧ (t.lockHash = .zero ∨ v.dist = t.lockHash)) :
    NodeInv net signed a tail t' := by
  refine h.revise hrole (fun v hv => ?_) fun hs hz v hv => ?_
  · have hcases : v = msg ∨ v ∈ t.first ++ t.second := by
      rcases mem_append.mp hv with hv | hv
      · exact (hfirst v hv).imp_right (mem_append_left _)
      · exact (hsecond v hv).symm.imp And.left (mem_append_right _)
    rcases hcases with rfl | hv
    · refine .inr ⟨hmsg.vouched hverified, ?_, hverified.scTail⟩
      rw [← h.councils_of_mem hverified.member]
      exact hverified.member
    · exact .inl hv
  · rcases hsecond v hv with hv | ⟨-, hzero | hd⟩
    · exact h.locked hs hz v hv
    · exact absurd hzero hz
    · exact hd

theorem handleVote1_inv (h : NodeInv net signed a tail t)
    (hsigned : ∀ sig ∈ signed, net.Allowed sig) (hle : tail ≤ b.scTail)
    (hmsg : Incoming net signed a b t msg) (hverified : Verified t msg)
    (hvote : handleVote1 b t msg = .ok r) :
    NodeInv net signed a b.scTail r.core ∧ ∀ o ∈ r.out, Sound net a o := by
  rcases handleVote1_cases hvote with
    ⟨hr, hout⟩ | ⟨votes, hvotes, -, hcount⟩ | ⟨v, votes, blackList, hvotes, -, -, -, -, hout, hr⟩
  · rw [hr, hout]
    exact ⟨h.mono (fun _ hs => hs) hle, nofun⟩
  · have hfirst : ∀ v ∈ (votes.put msg).values, v = msg ∨ v ∈ t.first := by
      intro v hv
      rw [first, hvotes]
      exact (Keyed.mem_put.mp hv).imp_right And.left
    have hstored : NodeInv net signed a tail { t with votes1 := some (votes.put msg) } :=
      h.store hmsg hverified rfl hfirst fun v hv => .inl hv
    rcases countVote1_cases hcount with ⟨hstate, hactive⟩ | ⟨hr, hout⟩ | ⟨d, hstate, hd, hr, hout⟩
    · refine active_inv hstored hle hmsg.councils hmsg.proposal (fun _ v hv hvtail => ?_) hactive
      obtain ⟨hmembers, hnew⟩ := hmsg.members hstate
      rcases mem_append.mp hv with hv | hv
      · rcases hfirst v hv with rfl | hv
        · exact hnew hvtail
        · exact hmembers v (mem_append_left _ hv) hvtail
      · exact hmembers v (mem_append_right _ hv) hvtail
    · rw [hr, hout]
      exact ⟨hstored.mono (fun _ hs => hs) hle, nofun⟩
    · have hlock := hstored.lock hsigned (h.councils_of_mem hverified.member) hstate hd
      rw [hr] at hout ⊢
      refine ⟨hlock.mono (fun _ hs => hs) hle, fun o ho => ?_⟩
      rw [hout o ho]
      exact hlock.sound_vote2 (.inl rfl)
  · have hfirst : ∀ w ∈ r.core.first, w ∈ t.first := by
      intro w hw
      rw [hr] at hw
      rw [first, hvotes]
      exact (Keyed.mem_erase.mp hw).1
    have hsecond : ∀ w ∈ r.core.second, w ∈ t.second := by
      intro w hw
      rw [hr] at hw
      change w ∈ ((t.votes2.map fun m : Votes => m.filter _).getD .empty).values at hw
      rw [Keyed.values_map_filter] at hw
      exact (mem_filter.mp hw).1
    have hdrop : NodeInv net signed a tail r.core :=
      h.drop (by rw [hr]; rfl) hfirst hsecond
    rw [hout]
    exact ⟨hdrop.mono (fun _ hs => hs) hle, nofun⟩

theorem commit_inv {p : Proposal} (t' : Core) (h : NodeInv net signed a tail t)
    (hsigned : ∀ sig ∈ signed, net.Allowed sig) (hcouncils : t.councils = net.councilsAt t.scTail)
    (hstate : t.state ≠ .running) (hd : decided t.second t.majority32 = some d)
    (hp : t.proposal = some p)
    (hrole : t'.role = (t.address, t.scTail, t.councils, t.proposal, .commited, d))
    (hfirst : t'.first = t.first) (hsecond : ∀ v ∈ t'.second, v ∈ t.second) :
    NodeInv net signed a tail t' ∧
      (d = p.hash → Sound net a (.commit p ((t.second.filter fun v => v.dist = d).map
        fun v => ⟨v.scTail, v.sign⟩))) := by
  have hcounted := h.counted (t.votes2.getD .empty) hstate fun v => mem_append_right _
  have hcount := lt_countP_of_decided hd
  rw [majority32, hcouncils] at hcount
  have hbacked := hcounted.backed hsigned hcount
  refine ⟨?_, fun hown => ?_⟩
  · exact h.settle hstate (.inr rfl) hbacked hrole hfirst fun v hv => ⟨hsecond v hv, nofun⟩
  · have hnumber : p.number = t.scTail + 1 := by
      have hown := (h.voting hstate).1
      rw [hp] at hown
      cases hown
      rfl
    refine ⟨⟨t.scTail, votersFor t.second d, hnumber, ?_, hcounted.nodup_votersFor d,
      fun x hx => ?_, ?_⟩, t.scTail, hnumber, hown ▸ hbacked⟩
    · rw [votersFor, map_map]
      refine map_congr_left fun v hv => ?_
      obtain ⟨hv, hvd⟩ := mem_filter.mp hv
      have hsign := (hcounted.vouched v hv).1
      have hvtail := hcounted.scTail v hv
      rw [of_decide_eq_true hvd, hvtail] at hsign
      simp only [Function.comp, hsign, hvtail, hown]
    · obtain ⟨v, hv, -, rfl⟩ := mem_votersFor.mp hx
      exact hcounted.member v hv
    · rw [length_votersFor]
      omega

theorem NodeInv.lockHash_eq (h : NodeInv net signed a tail t)
    (hd : decided t.second t.majority32 = some d) (hstate : t.state ≠ .commited)
    (hlock : t.lockHash ≠ .zero) : t.lockHash = d := by
  have hprepare : t.state = .prepare := by
    cases hs : t.state with
    | running => exact absurd (h.unlocked (.inl hs)) hlock
    | stop => exact absurd (h.unlocked (.inr hs)) hlock
    | prepare => rfl
    | commited => exact absurd hs hstate
  obtain ⟨v, hv, hvd⟩ := countP_pos_iff.mp (Nat.zero_lt_of_lt (lt_countP_of_decided hd))
  rw [← h.locked hprepare hlock v hv]
  exact of_decide_eq_true hvd

theorem lockDist_cases (hlock : t.lockHash ≠ .zero → t.lockHash = d) :
    ∃ votes2 : Option Votes, (if t.lockHash.emptyHash then t.lockDist d else t) =
        { t with lockHash := d, votes2 := votes2 } ∧
      (∀ v ∈ (votes2.getD .empty).values, v ∈ t.second) ∧
      (votes2.getD .empty).values.filter (fun v => v.dist = d) =
        t.second.filter fun v => v.dist = d := by
  split
  · refine ⟨_, rfl, ?_⟩
    change (∀ v ∈ (t.lockDist d).second, _) ∧ (t.lockDist d).second.filter _ = _
    rw [second_lockDist]
    split
    · refine ⟨fun v hv => (mem_filter.mp hv).1, ?_⟩
      rw [filter_filter]
      simp
    · exact ⟨fun _ hv => hv, rfl⟩
  · next hzero => exact ⟨t.votes2, by rw [← hlock (by simpa using hzero)], fun _ hv => hv, rfl⟩

theorem handleVote2_inv (h : NodeInv net signed a tail t)
    (hsigned : ∀ sig ∈ signed, net.Allowed sig) (hle : tail ≤ b.scTail)
    (hmsg : Incoming net signed a b t msg) (hverified : Verified t msg)
    (hstatus : msg.status = State.prepare.code) (hvote : handleVote2 b t msg = .ok r) :
    NodeInv net signed a b.scTail r.core ∧ ∀ o ∈ r.out, Sound net a o := by
  rcases handleVote2_cases hvote with ⟨hr, hout⟩ | ⟨votes, hvotes, hdist, hcount⟩
  · rw [hr, hout]
    exact ⟨h.mono (fun _ hs => hs) hle, nofun⟩
  have hstored : NodeInv net signed a tail { t with votes2 := some (votes.put msg) } := by
    refine h.store hmsg hverified rfl (fun v hv => .inr hv) fun v hv => ?_
    rw [second, hvotes]
    rcases Keyed.mem_put.mp hv with rfl | ⟨hv, -⟩
    · exact .inr ⟨rfl, hdist⟩
    · exact .inl hv
  rcases countVote2_cases hcount with ⟨hr, hout⟩ | ⟨d, hd, hcommit⟩
  · rw [hr, hout]
    exact ⟨hstored.mono (fun _ hs => hs) hle, nofun⟩
  have hstate : t.state ≠ .commited := by
    intro hs
    have hle := hverified.status
    rw [hstatus, hs] at hle
    exact absurd hle (by decide)
  obtain ⟨votes2, hlock, hsub, hfilter⟩ := lockDist_cases (hstored.lockHash_eq hd hstate)
  rw [hlock] at hcommit
  obtain ⟨p, history, hp, hr, hout⟩ := commit_cases hcommit
  -- an idle core has no proposal, so the core votes
  have hvoting : t.state ≠ .running := fun hs => nomatch (h.idle hs).symm.trans hp
  obtain ⟨hinv, hsound⟩ := commit_inv r.core hstored hsigned
    (h.councils_of_mem hverified.member) hvoting hd hp (by rw [hr]; rfl) (by rw [hr]; rfl)
    (by rw [hr]; exact hsub)
  refine ⟨hinv.mono (fun _ hs => hs) hle, fun o ho => ?_⟩
  rcases hout with hout | ⟨hown, hout⟩
  · rw [hout] at ho
    cases ho
  · rw [hout, mem_singleton] at ho
    have hgoal := hsound hown
    rw [← hfilter] at hgoal
    rw [ho]
    exact hgoal

end Handlers

end Network

end Nerthus.Council
