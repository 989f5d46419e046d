import Nerthus.Council.Network

/-!
# Runs of the council

Every move of an honest member keeps the invariant of its core, lets it sign
only what it may, and commits only hashes with the support of the council; so in
every orderly run one unit at most is committed for a height.
-/

namespace Nerthus.Council.Network

open Lib Function List

variable {net : Network}

section Moves

variable {signed : List SignContent} {a : Address} {tail : Nat} {b : Backend}
  {t t' : Core} {msg : CouncilMessage} {out : List Output} {r : Reply}

theorem nodeInv_newCore (net : Network) (signed : List SignContent) (a : Address) (tail : Nat)
    (activatedCallback : Bool) : NodeInv net signed a tail (newCore a activatedCallback) :=
  .of_running rfl (Nat.zero_le tail) (.inl rfl) nofun rfl rfl rfl

section

variable (h : NodeInv net signed a tail t)
include h

theorem start_inv (hle : tail ≤ b.scTail)
    (hcouncils : ∀ l, b.getCouncils = some l → l = net.councilsAt b.scTail)
    (hstate : t.state = .running) : NodeInv net signed a b.scTail (start b t) := by
  unfold start
  cases hget : b.getCouncils with
  | none =>
    exact { h.mono (fun _ hs => hs) hle with councils := .inl rfl }
  | some l =>
    exact .of_running h.address le_rfl (.inr (hcouncils l hget)) nofun hstate (h.idle hstate)
      (h.unlocked (.inl hstate))

theorem stop_inv : NodeInv net signed a tail (stop t) :=
  .of_running h.address (Nat.zero_le tail) (.inl rfl) nofun rfl rfl rfl

theorem resend_inv (hresend : resend b t = .ok (t', out)) :
    NodeInv net signed a tail t' ∧ ∀ o ∈ out, Sound net a o := by
  rcases resend_cases hresend with ⟨n, rfl, rfl⟩ | ⟨n, p, -, hp, rfl, hout⟩
  · exact ⟨h.drop rfl (fun _ hv => hv) fun _ hv => hv, nofun⟩
  refine ⟨h.drop rfl (fun _ hv => hv) fun _ hv => hv, fun o ho => ?_⟩
  have hvoting : t.state ≠ .running := by
    intro hs
    rw [h.idle hs] at hp
    cases hp
  rcases hout o ho with rfl | ⟨-, hstop, rfl⟩
  · exact h.sound_vote1 hvoting hp
  refine h.sound_vote2 ?_
  cases hs : t.state with
  | running => exact absurd hs hvoting
  | stop => exact absurd hs hstop
  | prepare => exact .inl rfl
  | commited => exact .inr rfl

theorem handleVote_inv (hsigned : ∀ sig ∈ signed, net.Allowed sig) (hle : tail ≤ b.scTail)
    (hmsg : Incoming net signed a b t msg) (hvote : handleVote b t msg = .ok r) :
    NodeInv net signed a b.scTail r.core ∧ ∀ o ∈ r.out, Sound net a o := by
  rcases handleVote_cases hvote with
    ⟨history, hr, hout⟩ | ⟨hverified, r', hr, hout, ⟨-, hvote⟩ | ⟨hstatus, hvote⟩⟩
  · have hdrop : NodeInv net signed a tail r.core :=
      h.drop (by rw [hr]; rfl) (fun v hv => by rw [hr] at hv; exact hv) fun v hv => by rw [hr] at hv; exact hv
    rw [hout]
    exact ⟨hdrop.mono (fun _ hs => hs) hle, nofun⟩
  · rw [hr, hout]
    exact handleVote1_inv h hsigned hle hmsg hverified hvote
  · rw [hr, hout]
    exact handleVote2_inv h hsigned hle hmsg hverified hstatus hvote

end

theorem step_inv {s : System} {mv : Move}
    (h : NodeInv net s.signed mv.member (s.tail mv.member) (s.core mv.member))
    (hsigned : ∀ sig ∈ s.signed, net.Allowed sig) (hallows : net.Allows s mv)
    (horderly : net.Orderly mv.backend (s.core mv.member) mv.call)
    (hstep : step mv.backend (s.core mv.member) mv.call = .ok (t', out)) :
    NodeInv net s.signed mv.member mv.backend.scTail t' ∧ ∀ o ∈ out, Sound net mv.member o := by
  obtain ⟨a, b, c⟩ := mv
  have hgrows : s.tail a ≤ b.scTail := hallows.grows
  cases c with
  | start =>
    cases hstep
    exact ⟨start_inv h hgrows hallows.councils horderly, nofun⟩
  | stop =>
    cases hstep
    exact ⟨(stop_inv h).mono (fun _ hs => hs) hgrows, nofun⟩
  | active => exact active_inv h hgrows hallows.councils hallows.proposal horderly hstep
  | handleVote msg =>
    obtain ⟨r, hvote, hret⟩ := bind_eq_ok_iff.mp hstep
    cases hret
    exact handleVote_inv h hsigned hgrows
      ⟨hallows.councils, hallows.proposal, hallows.unforged msg rfl, horderly⟩ hvote
  | expire =>
    cases hstep
    have hdrop : NodeInv net s.signed a (s.tail a) (expire (s.core a)) := by
      unfold expire
      split
      · exact h.drop rfl (fun _ hv => hv) fun _ hv => hv
      · exact h
    exact ⟨hdrop.mono (fun _ hs => hs) hgrows, nofun⟩
  | resend =>
    obtain ⟨hinv, hsound⟩ := resend_inv h hstep
    exact ⟨hinv.mono (fun _ hs => hs) hgrows, hsound⟩

end Moves

structure Inv (net : Network) (s : System) : Prop where
  node : ∀ a, net.honest a = true → NodeInv net s.signed a (s.tail a) (s.core a)
  signed : ∀ sig ∈ s.signed, net.Allowed sig
  commits : ∀ x ∈ s.commits, net.Sealed x ∧
    ∃ n, x.proposal.number = n + 1 ∧ net.Backed x.proposal.hash n

theorem inv_init (net : Network) (tail : Address → Nat) : Inv net (.init tail) :=
  ⟨fun a _ => nodeInv_newCore net [] a (tail a) true, nofun,
    nofun⟩

theorem Inv.next {s : System} {mv : Move} (h : Inv net s) (hallows : net.Allows s mv)
    (horderly : net.Orderly mv.backend (s.core mv.member) mv.call) : Inv net (s.next mv) := by
  unfold System.next
  cases hstep : step mv.backend (s.core mv.member) mv.call with
  | error e => exact h
  | ok res =>
    obtain ⟨t', out⟩ := res
    obtain ⟨hnode, hsound⟩ := step_inv (h.node _ hallows.honest) h.signed hallows horderly hstep
    have hsub : ∀ sig ∈ s.signed, sig ∈ (s.after mv.member mv.backend t' out).signed :=
      fun sig hs => mem_append_left _ hs
    refine ⟨fun a ha => ?_, fun sig hsig => ?_, fun x hx => ?_⟩
    · by_cases hsame : a = mv.member
      · subst hsame
        change NodeInv net _ _ (update s.tail _ _ _) (update s.core _ _ _)
        rw [update_self, update_self]
        exact hnode.mono hsub le_rfl
      · change NodeInv net _ _ (update s.tail _ _ _) (update s.core _ _ _)
        rw [update_of_ne hsame, update_of_ne hsame]
        exact (h.node a ha).mono hsub le_rfl
    · rcases mem_append.mp hsig with hsig | hsig
      · exact h.signed sig hsig
      obtain ⟨o, ho, hsig⟩ := mem_filterMap.mp hsig
      cases o with
      | broadcast msg =>
        obtain ⟨sig', hsign, -, hallowed⟩ := hsound _ ho
        change msg.sign = some sig at hsig
        rw [hsign] at hsig
        cases hsig
        exact hallowed
      | commit p seals => cases hsig
      | activated => cases hsig
    · rcases mem_append.mp hx with hx | hx
      · exact h.commits x hx
      obtain ⟨o, ho, hx⟩ := mem_filterMap.mp hx
      cases o with
      | broadcast msg => cases hx
      | commit p seals =>
        cases hx
        exact hsound _ ho
      | activated => cases hx

theorem Inv.run {s : System} {moves : List Move} (h : Inv net s) (hallows : net.AllowsRun s moves)
    (horderly : net.OrderlyRun s moves) : Inv net (s.run moves) := by
  induction moves generalizing s with
  | nil => exact h
  | cons mv rest ih => exact ih (h.next hallows.1 horderly.1) hallows.2 horderly.2

theorem Inv.agreed {s : System} (h : Inv net s) : net.Agreed s := by
  refine ⟨fun x hx y hy hnumber => ?_, fun x hx => (h.commits x hx).1⟩
  obtain ⟨-, n, hn, hbacked⟩ := h.commits x hx
  obtain ⟨-, n', hn', hbacked'⟩ := h.commits y hy
  have hsame : n = n' := by omega
  subst hsame
  have hhash : x.proposal.hash = y.proposal.hash := hbacked.unique hbacked'
  calc x.proposal = ⟨x.proposal.hash, x.proposal.number⟩ := rfl
    _ = ⟨y.proposal.hash, y.proposal.number⟩ := by rw [hhash, hnumber]

/-- In every orderly run no two units are committed for one height, and every commit carries the
seals of more than two thirds of the council. -/
theorem council_agrees {tail : Address → Nat} {moves : List Move}
    (hallows : net.AllowsRun (.init tail) moves) (horderly : net.OrderlyRun (.init tail) moves) :
    net.Agreed ((System.init tail).run moves) :=
  ((inv_init net tail).run hallows horderly).agreed

namespace Sample

def shrinking : Network where
  councilsAt n := if n ≤ 5 then [⟨1⟩, ⟨2⟩, ⟨3⟩, ⟨4⟩, ⟨5⟩, ⟨8⟩, ⟨9⟩] else [⟨1⟩, ⟨2⟩, ⟨3⟩]
  nodup n := by split <;> decide
  honest a := decide (a.hash < 8)
  proposalOf a n := ⟨100 * a.hash + n⟩
  few n := by split <;> decide

def chainOf (net : Network) (a : Address) (n : Nat) : Backend :=
  { scTail := n, getCouncils := some (net.councilsAt n),
    generateProposal := some ⟨net.proposalOf a n, n + 1⟩, getUnitByHash := fun _ => false,
    sign := true, commit := true }

def move (net : Network) (a : Address) (n : Nat) (c : Call) : Move := ⟨a, chainOf net a n, c⟩

def ballot (a : Address) (n : Nat) (phase : State) (d : Hash) : Call :=
  .handleVote (signBy a ⟨a, n, d, phase.code, none⟩)

/-- The faulty members vote at height five for what the member will propose at height six, where it
is activated and gets its own votes. -/
def misled (a : Address) : List Move :=
  let d := shrinking.proposalOf a 6
  [move shrinking a 5 .start, move shrinking a 5 (ballot ⟨8⟩ 6 .stop d),
    move shrinking a 5 (ballot ⟨9⟩ 6 .stop d), move shrinking a 5 (ballot ⟨8⟩ 6 .prepare d),
    move shrinking a 5 (ballot ⟨9⟩ 6 .prepare d), move shrinking a 6 .active,
    move shrinking a 6 (ballot a 6 .stop d), move shrinking a 6 (ballot a 6 .prepare d)]

/-- Members one and two commit different units for height seven. -/
theorem different_units : shrinking.AllowsRun (.init fun _ => 5) (misled ⟨1⟩ ++ misled ⟨2⟩) ∧
      ¬shrinking.Agreed ((System.init fun _ => 5).run (misled ⟨1⟩ ++ misled ⟨2⟩)) := by
  have hcommits : (((System.init fun _ => 5).run (misled ⟨1⟩ ++ misled ⟨2⟩)).commits.map
      Committed.proposal) = [⟨⟨106⟩, 7⟩, ⟨⟨206⟩, 7⟩] := by decide +kernel
  refine ⟨by decide +kernel, fun h => ?_⟩
  obtain ⟨x, hx, hxp⟩ := mem_map.mp
    (show (⟨⟨106⟩, 7⟩ : Proposal) ∈ _ from hcommits ▸ mem_cons_self)
  obtain ⟨y, hy, hyp⟩ := mem_map.mp
    (show (⟨⟨206⟩, 7⟩ : Proposal) ∈ _ from hcommits ▸ mem_cons_of_mem _ mem_cons_self)
  have hsame := h.same x hx y hy (by rw [hxp, hyp])
  rw [hxp, hyp] at hsame
  exact absurd hsame (by decide)

def steady : Network where
  councilsAt _ := [⟨1⟩, ⟨2⟩, ⟨3⟩, ⟨4⟩]
  nodup _ := by decide
  honest a := decide (a.hash < 4)
  proposalOf _ n := ⟨70 + n⟩
  few _ := by decide

/-- The faulty member votes for something else in the second phase; member one commits with the
votes of the other two. -/
def voting : List Move :=
  let d := steady.proposalOf ⟨1⟩ 5
  [move steady ⟨1⟩ 5 .start, move steady ⟨1⟩ 5 .active, move steady ⟨2⟩ 5 .start,
    move steady ⟨2⟩ 5 .active, move steady ⟨3⟩ 5 .start, move steady ⟨3⟩ 5 .active,
    move steady ⟨1⟩ 5 (ballot ⟨1⟩ 5 .stop d), move steady ⟨1⟩ 5 (ballot ⟨2⟩ 5 .stop d),
    move steady ⟨1⟩ 5 (ballot ⟨3⟩ 5 .stop d), move steady ⟨1⟩ 5 (ballot ⟨4⟩ 5 .prepare ⟨9⟩),
    move steady ⟨1⟩ 5 (ballot ⟨1⟩ 5 .prepare d), move steady ⟨1⟩ 5 (ballot ⟨2⟩ 5 .prepare d),
    move steady ⟨1⟩ 5 (ballot ⟨3⟩ 5 .prepare d)]

theorem voting_agrees : ((System.init fun _ => 5).run voting).commits.length = 1 ∧
      steady.Agreed ((System.init fun _ => 5).run voting) :=
  ⟨by decide +kernel, council_agrees (by decide +kernel) (by decide +kernel)⟩

end Sample

end Nerthus.Council.Network
