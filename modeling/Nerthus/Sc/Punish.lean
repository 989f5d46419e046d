import Nerthus.Sc.Report

/-!
# Who is punished

A report puts everybody on the black list who signed a vote of the proof and is
not marked yet. It fails if one of them works no more.
-/

namespace Nerthus.Sc

open Lib (bind_eq_ok_iff guard_eq_ok_iff)
open Arbitration (ProofOf Signed)
open List

variable {db db' : StateDB} {w : Address} {gas gas' : Nat} {bads : List Address}

namespace StateDB

structure Punished (db db' : StateDB) (accused : List Address) : Prop where
  consistent : Consistent db'
  rest : db' = { db with
    sets := db'.sets, witness := db'.witness, activeWitness := db'.activeWitness,
    badWitness := db'.badWitness }
  sets : ∀ key, (∀ g, key ≠ witnessSetKey g) → db'.sets key = db.sets key
  status : ∀ b, (db'.witness b).status =
    if b ∈ accused ∧ db.badWitness b = false then some .inBlackList else (db.witness b).status
  margin : ∀ b, (db'.witness b).margin = (db.witness b).margin
  bad : ∀ b, db'.badWitness b = true ↔ db.badWitness b = true ∨ b ∈ accused

def Punishable (db : StateDB) (a : Address) : Prop :=
  db.badWitness a = true ∨ (db.witness a).status = some .normal

section Punish

variable {env : Env} {call : Call}

theorem Consistent.mark (h : Consistent db) (w : Address) :
    Consistent { db with badWitness := Function.update db.badWitness w true } :=
  h.congr (fun _ => rfl) rfl rfl

theorem punished_self (hdb : Consistent db) (hbad : db.badWitness w = true) :
    Punished db db [w] := by
  refine ⟨hdb, rfl, fun _ _ => rfl, fun b => ?_, fun _ => rfl, fun b => ?_⟩
  · by_cases hb : b = w
    · subst hb
      simp [hbad]
    · simp [hb]
  · constructor
    · exact fun h => .inl h
    · rintro (h | hb)
      · exact h
      · rw [mem_singleton.mp hb]
        exact hbad

theorem punished_exit {number : Nat} (hbad : db.badWitness w = false)
    (hexit : Exited { db with badWitness := Function.update db.badWitness w true } db' w
      .inBlackList number) : Punished db db' [w] := by
  have hself := hexit.self
  have hother := hexit.other
  have hmarks : db'.badWitness = Function.update db.badWitness w true := by
    rw [hexit.rest]
  refine ⟨hexit.consistent, ?_, hexit.sets, fun b => ?_, fun b => ?_, fun b => ?_⟩
  · rw [hexit.rest]
  · by_cases hb : b = w
    · subst hb
      rw [hself]
      simp [hbad]
    · rw [hother b hb]
      simp [hb]
  · by_cases hb : b = w
    · subst hb
      rw [hself]
    · rw [hother b hb]
  · rw [hmarks, Function.update_apply, mem_singleton]
    by_cases hb : b = w
    · simp [hb]
    · simp [hb]

theorem writeBadWitness_spec (hdb : Consistent db)
    (h : db.writeBadWitness env call gas w = .ok (db', gas')) :
    Punishable db w ∧ Punished db db' [w] := by
  rw [writeBadWitness] at h
  cases hbad : db.badWitness w with
  | true =>
    rw [hbad, if_pos rfl] at h
    cases h
    exact ⟨.inl hbad, punished_self hdb hbad⟩
  | false =>
    rw [hbad, if_neg (by simp)] at h
    obtain ⟨hnormal, hexit⟩ := removeChainWitness_bad (hdb.mark w) h
    exact ⟨.inr hnormal, punished_exit hbad hexit⟩

def blackListGas : Nat := Gas.sloadGas + Gas.sstoreSetGas * 10

def punishGas : Nat := Gas.bn256PairingBaseGas + blackListGas

theorem writeBadWitness_ok (env : Env) (call : Call) (hdb : Consistent db) (hw : Punishable db w)
    (hgas : blackListGas ≤ gas) :
    ∃ db' gas', db.writeBadWitness env call gas w = .ok (db', gas') ∧ Punished db db' [w] ∧
      gas ≤ gas' + blackListGas := by
  rw [writeBadWitness]
  cases hbad : db.badWitness w with
  | true =>
    rw [if_pos rfl]
    exact ⟨db, gas, rfl, punished_self hdb hbad, by omega⟩
  | false =>
    rw [if_neg (by simp)]
    have hnormal : (db.witness w).status = some .normal := by
      rcases hw with hmarked | hnormal
      · rw [hbad] at hmarked
        cases hmarked
      · exact hnormal
    obtain ⟨db', heq, hexit⟩ := removeChainWitness_ok env call (hdb.mark w) hnormal hgas
    refine ⟨db', _, heq, punished_exit hbad hexit, ?_⟩
    rw [blackListGas]
    omega

theorem Punished.cons {db₁ : StateDB} {rest : List Address} (h : Punished db db₁ [w])
    (h' : Punished db₁ db' rest) : Punished db db' (w :: rest) := by
  refine ⟨h'.consistent, ?_, fun key hkey => (h'.sets key hkey).trans (h.sets key hkey),
    fun b => ?_, fun b => (h'.margin b).trans (h.margin b), fun b => ?_⟩
  · rw [h'.rest]
    rw [h.rest]
  · have hmark := h.bad b
    rw [h'.status b, h.status b]
    by_cases hb : b = w
    · subst hb
      cases hbad : db.badWitness b with
      | true =>
        have : db₁.badWitness b = true := hmark.mpr (.inl hbad)
        simp [this]
      | false =>
        have : db₁.badWitness b = true := hmark.mpr (.inr (.head _))
        simp [this]
    · have hsame : db₁.badWitness b = db.badWitness b := by
        apply Bool.eq_iff_iff.mpr
        rw [hmark]
        simp [hb]
      simp [hb, hsame]
  · rw [h'.bad, h.bad, mem_singleton, mem_cons]
    tauto

theorem Punished.punishable_iff {db₁ : StateDB} {b : Address} (h : Punished db db₁ [w]) (hb : b ≠ w) :
    Punishable db₁ b ↔ Punishable db b := by
  rw [Punishable, Punishable, h.bad, h.status]
  simp [hb]

theorem punish_spec {accused : List Address} (hdb : Consistent db)
    (h : punish env call gas db accused = .ok (db', gas')) :
    (∀ a ∈ accused, Punishable db a) ∧ Punished db db' accused := by
  induction accused generalizing db gas with
  | nil =>
    cases h
    exact ⟨by simp, hdb, rfl, fun _ _ => rfl, by simp, fun _ => rfl, by simp⟩
  | cons w rest ih =>
    obtain ⟨_, -, h⟩ := bind_eq_ok_iff.mp h
    obtain ⟨⟨db₁, gas₂⟩, hwrite, h⟩ := bind_eq_ok_iff.mp h
    obtain ⟨hw, hone⟩ := writeBadWitness_spec hdb hwrite
    obtain ⟨hall, hrest⟩ := ih hone.consistent h
    refine ⟨fun a ha => ?_, hone.cons hrest⟩
    by_cases haw : a = w
    · exact haw ▸ hw
    · rcases mem_cons.mp ha with heq | ha
      · exact absurd heq haw
      · exact (hone.punishable_iff haw).mp (hall a ha)

theorem punish_ok (env : Env) (call : Call) {accused : List Address} (hdb : Consistent db)
    (hnodup : accused.Nodup) (haccused : ∀ a ∈ accused, Punishable db a)
    (hgas : accused.length * punishGas ≤ gas) :
    ∃ db' gas', punish env call gas db accused = .ok (db', gas') ∧
      gas ≤ gas' + accused.length * punishGas := by
  induction accused generalizing db gas with
  | nil => exact ⟨db, gas, rfl, by omega⟩
  | cons w rest ih =>
    obtain ⟨hnot, hrest⟩ := nodup_cons.mp hnodup
    rw [length_cons, Nat.succ_mul] at hgas
    have hunit : punishGas = Gas.bn256PairingBaseGas + blackListGas := rfl
    obtain ⟨db₁, gas₁, hwrite, hone, hused⟩ := writeBadWitness_ok env call hdb
      (haccused w (.head _)) (show blackListGas ≤ gas - Gas.bn256PairingBaseGas by omega)
    have hothers : ∀ a ∈ rest, Punishable db₁ a := fun a ha =>
      (hone.punishable_iff fun h => hnot (h ▸ ha)).mpr (haccused a (.tail _ ha))
    obtain ⟨db', gas', heq, hend⟩ := ih hone.consistent hrest hothers
      (show rest.length * punishGas ≤ gas₁ by omega)
    refine ⟨db', gas', ?_, ?_⟩
    · rw [punish, useGas_of_le (by omega)]
      simp only [bind, Except.bind, hwrite]
      exact heq
    · rw [length_cons, Nat.succ_mul]
      omega

end Punish

section Report

variable {env : Env} {call : Call} {gas gas' : Nat} {db db' : StateDB}
  {rep : ReportWitnessDishonest}

theorem systemReportDishonest_cases
    (h : db.systemReportDishonest env call gas rep = .ok (db', gas')) :
    call.caller ∈ db.getSystemMainWitness ∧
      ((rep.proof = [] ∧ db.arbitrationVote env rep.choose call.caller = .ok db') ∨
        ∃ first rest bads db₁ gas₁ gas₂, rep.proof = first :: rest ∧
          checkReport env rep.proof = .ok bads ∧
          punish env call gas₁ db (sortAccused bads) = .ok (db₁, gas₂) ∧
          ((rep.choose.mc.empty = true ∧
              db' = db₁.writeArbitrationNumberFlag first.header.mc first.header.number) ∨
            (rep.choose.mc.empty = false ∧ rep.choose.number = first.header.number ∧
              rep.choose.mc = first.header.mc ∧
              (db₁.writeArbitrationNumberFlag first.header.mc first.header.number).arbitrationVote
                env rep.choose call.caller = .ok db'))) := by
  obtain ⟨choose, proof⟩ := rep
  unfold systemReportDishonest at h
  obtain ⟨-, h⟩ := guard_eq_ok_iff.mp h
  obtain ⟨_, -, h⟩ := bind_eq_ok_iff.mp h
  obtain ⟨hcaller, h⟩ := guard_eq_ok_iff.mp h
  refine ⟨Decidable.not_not.mp hcaller, ?_⟩
  obtain ⟨_, -, h⟩ := bind_eq_ok_iff.mp h
  cases proof with
  | nil =>
    obtain ⟨gas₂, -, h⟩ := bind_eq_ok_iff.mp h
    obtain ⟨db₁, hvote, h⟩ := bind_eq_ok_iff.mp h
    cases h
    exact .inl ⟨rfl, hvote⟩
  | cons first rest =>
    simp only [bind_eq_ok_iff] at h
    obtain ⟨gas₂, -, bads, hcheck, ⟨db₁, gas₃⟩, hpunish, _, -, _, -, h⟩ := h
    refine .inr ⟨first, rest, bads, db₁, gas₂, gas₃, rfl, hcheck, hpunish, ?_⟩
    cases hempty : choose.mc.empty with
    | true =>
      rw [hempty, if_pos rfl] at h
      cases h
      exact .inl ⟨rfl, rfl⟩
    | false =>
      rw [hempty, if_neg (by simp)] at h
      simp only [guard_eq_ok_iff, bind_eq_ok_iff] at h
      obtain ⟨hsame, _, -, db₂, hvote, h⟩ := h
      cases h
      push Not at hsame
      exact .inr ⟨rfl, hsame.1, hsame.2, hvote⟩

theorem mem_sortAccused {a : Address} : a ∈ sortAccused bads ↔ a ∈ bads :=
  (perm_insertionSort _ bads).mem_iff

theorem nodup_sortAccused (h : bads.Nodup) : (sortAccused bads).Nodup :=
  (perm_insertionSort _ bads).nodup_iff.mpr h

theorem insertTo_witness (db : StateDB) (key : SetKey) (v : Hash) :
    (db.insertTo key v).witness = db.witness := by
  rw [insertTo]
  split <;> rfl

theorem arbitrationVote_witness {unit : Header} {voter : Address}
    (h : db.arbitrationVote env unit voter = .ok db') : db'.witness = db.witness := by
  have hwrite : (db.writeChainArbitration unit.id voter).1.witness = db.witness := by
    rw [writeChainArbitration]
    split
    · rfl
    · exact insertTo_witness _ _ _
  have hclear : ∀ (db₁ : StateDB) (chain : Address) (number : Nat),
      (db₁.clearArbitrationNumberFlag chain number).witness = db₁.witness := by
    intro db₁ chain number
    rw [clearArbitrationNumberFlag]
    split <;> rfl
  unfold arbitrationVote at h
  simp only [guard_eq_ok_iff] at h
  obtain ⟨-, -, -, -, h⟩ := h
  split at h
  · cases h
    exact (hclear _ _ _).trans hwrite
  · cases h
    exact hwrite

theorem writeArbitrationNumberFlag_witness (db : StateDB) (chain : Address) (number : Nat) :
    (db.writeArbitrationNumberFlag chain number).witness = db.witness :=
  insertTo_witness _ _ _

theorem accused_of_blackListed (hdb : Consistent db)
    (h : db.systemReportDishonest env call gas rep = .ok (db', gas'))
    (hafter : (db'.witness w).status = some .inBlackList)
    (hbefore : (db.witness w).status ≠ some .inBlackList) :
    ∃ bads, checkReport env rep.proof = .ok bads ∧ w ∈ bads := by
  rcases (systemReportDishonest_cases h).2 with
    ⟨-, hvote⟩ | ⟨first, rest, bads, db₁, gas₁, gas₂, -, hcheck, hpunish, hend⟩
  · rw [arbitrationVote_witness hvote] at hafter
    exact absurd hafter hbefore
  have hwitness : db'.witness = db₁.witness := by
    rcases hend with ⟨-, rfl⟩ | ⟨-, -, -, hvote⟩
    · exact writeArbitrationNumberFlag_witness _ _ _
    · exact (arbitrationVote_witness hvote).trans (writeArbitrationNumberFlag_witness _ _ _)
  refine ⟨bads, hcheck, ?_⟩
  rw [hwitness, (punish_spec hdb hpunish).2.status w] at hafter
  by_contra hnot
  rw [if_neg (fun hin => hnot (mem_sortAccused.mp hin.1))] at hafter
  exact hbefore hafter

end Report

section DoubleVotes

variable {sender : VoteMsg → Except Err Address}

/-- `a` signed votes over two different units of the proof, of one chain and height. -/
def DoubleVoter (sender : VoteMsg → Except Err Address) (proof : List AffectedUnit) (a : Address) :
    Prop :=
  ∃ u ∈ proof, ∃ u' ∈ proof, u.header.hash ≠ u'.header.hash ∧ u.header.mc = u'.header.mc ∧
    u.header.number = u'.header.number ∧ Signed sender u a ∧ Signed sender u' a
deriving Decidable

def EverySignerTwice (sender : VoteMsg → Except Err Address) (proof : List AffectedUnit) : Prop :=
  ∀ u ∈ proof, ∀ a, Signed sender u a →
    ∃ u' ∈ proof, u'.header.hash ≠ u.header.hash ∧ Signed sender u' a

theorem doubleVoter_of_everySignerTwice {proof : List AffectedUnit} {mc : Address} {number : Nat}
    (hproof : ProofOf sender proof bads mc number) (htwice : EverySignerTwice sender proof)
    {a : Address} (ha : a ∈ bads) : DoubleVoter sender proof a := by
  obtain ⟨u, hu, hsigned⟩ := (hproof.accused a).mp ha
  obtain ⟨u', hu', hne, hsigned'⟩ := htwice u hu a hsigned
  have haccepted := hproof.accepted u hu
  have haccepted' := hproof.accepted u' hu'
  refine ⟨u, hu, u', hu', hne.symm, ?_, ?_, hsigned, hsigned'⟩
  · rw [haccepted.mc, haccepted'.mc]
  · rw [haccepted.number, haccepted'.number]

/-- The accused of an accepted proof have all voted twice exactly if every signer of one of its
units signed another: whoever signed any is accused. Whom a report blacklists is accused. -/
theorem accused_doubleVoters_iff {σ : Type} (scAccount : Address)
    (sender : VoteMsg → Except Err Address) (getUnitState : Hash → Except Err σ)
    (checkWitnessStatus : Option (σ → Address → Except Err Unit)) (proof : List AffectedUnit)
    (bads : List Address)
    (hok : Arbitration.checkProofWithState scAccount sender getUnitState checkWitnessStatus proof =
      .ok bads) : ((∀ a ∈ bads, DoubleVoter sender proof a) ↔ EverySignerTwice sender proof) ∧
      (EverySignerTwice sender proof → ∀ (env : Env) (call : Call) (gas : Nat) (db : StateDB)
        (choose : Header) (db' : StateDB) (gas' : Nat), env.voteSender = sender →
        Consistent db → db.systemReportDishonest env call gas ⟨choose, proof⟩ = .ok (db', gas') →
        ∀ w, (db'.witness w).status = some .inBlackList →
          (db.witness w).status ≠ some .inBlackList → DoubleVoter sender proof w) := by
  obtain ⟨mc, number, hproof⟩ := Arbitration.checkProofWithState_spec hok
  refine ⟨⟨fun hall u hu a hsigned => ?_, fun htwice a ha =>
    doubleVoter_of_everySignerTwice hproof htwice ha⟩, ?_⟩
  · obtain ⟨u₁, hu₁, u₂, hu₂, hne, -, -, hsigned₁, hsigned₂⟩ :=
      hall a ((hproof.accused a).mpr ⟨u, hu, hsigned⟩)
    by_cases heq : u₁.header.hash = u.header.hash
    · exact ⟨u₂, hu₂, fun h => hne (heq.trans h.symm), hsigned₂⟩
    · exact ⟨u₁, hu₁, heq, hsigned₁⟩
  · rintro htwice env call gas db choose db' gas' rfl hdb hreport w hafter hbefore
    obtain ⟨bads', hcheck, hw⟩ := accused_of_blackListed hdb hreport hafter hbefore
    obtain ⟨mc', number', hproof'⟩ := Arbitration.checkProofWithState_spec hcheck
    exact doubleVoter_of_everySignerTwice hproof' htwice hw

end DoubleVotes

end StateDB

namespace Sample

def signer (sign : Core.Bytes) : Except Err Address :=
  match sign with
  | [b] => .ok ⟨b.toNat⟩
  | _ => .error (.other "invalid signature")

def reporter : Address := ⟨200⟩

def members : StateDB :=
  ((.apply reporter 0 0 [1] true) ::
    (List.range' 101 11).map fun n => MemberStep.apply ⟨n⟩ 0 0 [1] false).foldl
    (MemberStep.after env) .blank

def reportEnv : Env :=
  { env with
    voteSender := fun v => signer v.sign
    getUnitState := fun _ => .ok members }

def votedUnit (hash : Nat) (first : Nat) : AffectedUnit where
  header := ⟨⟨50⟩, 7, ⟨9⟩, ⟨hash⟩, by decide⟩
  votes := (List.range' first 8).map fun n => ⟨[], [UInt8.ofNat n]⟩

def overlapping : List AffectedUnit := [votedUnit 1 101, votedUnit 2 104]

def noChoice : Header := ⟨.emptyAddress, 0, .zero, .zero, by decide⟩

def reportCall : Call := ⟨reporter, reporter, 8⟩

/-- Witness 101 signed only one of the units, and comes on the black list. -/
theorem single_voter_punished : ¬StateDB.DoubleVoter reportEnv.voteSender overlapping ⟨101⟩ ∧
      (StateDB.checkReport reportEnv overlapping).toOption.map (·.contains ⟨101⟩) = some true ∧
      (members.systemReportDishonest reportEnv reportCall 5000000
        ⟨noChoice, overlapping⟩).toOption.map (fun r => (r.1.witness ⟨101⟩).status) =
        some (some .inBlackList) := by
  decide +kernel

def doubled : List AffectedUnit := [votedUnit 1 101, votedUnit 2 101]

/-- All eight signers of the two units have voted twice; so has whoever the report blacklists. -/
theorem doubled_doubleVoters :
    (∃ bads, StateDB.checkReport reportEnv doubled = .ok bads ∧ bads.length = 8 ∧
      ∀ a ∈ bads, StateDB.DoubleVoter reportEnv.voteSender doubled a) ∧
    ∃ db' gas', members.systemReportDishonest reportEnv reportCall 5000000 ⟨noChoice, doubled⟩ =
        .ok (db', gas') ∧ (db'.witness ⟨101⟩).status = some .inBlackList ∧
      ∀ w, (db'.witness w).status = some .inBlackList →
        (members.witness w).status ≠ some .inBlackList →
        StateDB.DoubleVoter reportEnv.voteSender doubled w := by
  have hok : StateDB.checkReport reportEnv doubled =
      .ok ((range' 101 8).map fun n => (⟨n⟩ : Address)) := by decide +kernel
  have htwice : StateDB.EverySignerTwice reportEnv.voteSender doubled := by
    intro u hu a hsigned
    rcases mem_pair.mp hu with rfl | rfl
    · exact ⟨votedUnit 2 101, by decide, by decide, hsigned⟩
    · exact ⟨votedUnit 1 101, by decide, by decide, hsigned⟩
  have hiff := StateDB.accused_doubleVoters_iff reportEnv.scAccount reportEnv.voteSender
    reportEnv.getUnitState (some StateDB.checkVoterStatus) doubled _ hok
  refine ⟨⟨_, hok, by decide, hiff.1.mpr htwice⟩, ?_⟩
  have hblack : (members.systemReportDishonest reportEnv reportCall 5000000
      ⟨noChoice, doubled⟩).toOption.map (fun r => (r.1.witness ⟨101⟩).status) =
      some (some .inBlackList) := by decide +kernel
  cases hrun : members.systemReportDishonest reportEnv reportCall 5000000 ⟨noChoice, doubled⟩ with
  | error e =>
    rw [hrun] at hblack
    cases hblack
  | ok result =>
    rw [hrun] at hblack
    exact ⟨result.1, result.2, rfl, Option.some.inj hblack,
      hiff.2 htwice reportEnv reportCall 5000000 members noChoice result.1 result.2 rfl
        (MemberStep.inv_history env _).1 hrun⟩

end Sample

end Nerthus.Sc
