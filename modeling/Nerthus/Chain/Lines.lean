import Nerthus.Chain.Store

/-!
# What a store represents

A chain is a line of headers above the genesis unit. A store represents one line for each
chain: a unit that is written is appended to its line, and a tail that is cleared is taken off.
-/

namespace Nerthus.Chain

open Function List Option

variable {env : Env}

def stableAt (env : Env) (line : List Header) : Nat → Hash
  | 0 => env.genesis.hash
  | n + 1 => ((line)[n]?.map Header.hash).getD .zero

variable {line : List Header} {header : Header} {chain : Address}

theorem stableAt_append_of_le {rest : List Header} {n : Nat} (h : n ≤ line.length) :
    stableAt env (line ++ rest) n = stableAt env line n := by
  cases n with
  | zero => rfl
  | succ n => rw [stableAt, stableAt, getElem?_append_left h]

theorem stableAt_append_length (line : List Header) (header : Header) :
    stableAt env (line ++ [header]) (line.length + 1) = header.hash := by
  simp [stableAt]

theorem stableAt_ne_zero_iff {n : Nat} : stableAt env line n ≠ .zero ↔ n ≤ line.length := by
  cases n with
  | zero => simp [stableAt, env.genesis.hash_ne]
  | succ n =>
    rw [stableAt]
    by_cases h : n < line.length
    · simp [getElem?_eq_getElem h, ((line)[n]).hash_ne, Nat.succ_le_iff.mpr h]
    · simp only [getElem?_eq_none (Nat.le_of_not_lt h), map_none, getD_none, ne_eq,
        not_true_eq_false, false_iff]
      omega

theorem stableAt_of_lt {n : Nat} (h : line.length < n) : stableAt env line n = .zero := by
  by_contra hne
  have := stableAt_ne_zero_iff.mp hne
  omega

def Linked (env : Env) (chain : Address) (line : List Header) : Prop :=
  ∀ n header, (line)[n]? = some header →
    header.mc = chain ∧ header.number = n + 1 ∧ header.parentHash = stableAt env line n

namespace Linked

theorem nil (chain : Address) : Linked env chain [] := by
  intro n header h
  cases h

theorem append (hlinked : Linked env chain line) (hmc : header.mc = chain)
    (hnumber : header.number = line.length + 1)
    (hparent : header.parentHash = stableAt env line line.length) :
    Linked env chain (line ++ [header]) := by
  intro n h hn
  by_cases hlt : n < line.length
  · rw [List.getElem?_append_left hlt] at hn
    rw [stableAt_append_of_le (Nat.le_of_lt hlt)]
    exact hlinked n h hn
  · have hle : n < (line ++ [header]).length := (List.getElem?_eq_some_iff.mp hn).1
    rw [List.length_append, List.length_singleton] at hle
    have heq : n = line.length := by omega
    rw [heq, List.getElem?_concat_length] at hn
    obtain rfl := some.inj hn
    rw [heq, stableAt_append_of_le (Nat.le_refl _)]
    exact ⟨hmc, hnumber, hparent⟩

theorem of_append (hlinked : Linked env chain (line ++ [header])) :
    Linked env chain line ∧ header.number = line.length + 1 ∧
      header.parentHash = stableAt env line line.length := by
  constructor
  · intro n h hn
    have hlt : n < line.length := (List.getElem?_eq_some_iff.mp hn).1
    have hplace := hlinked n h (by rw [List.getElem?_append_left hlt, hn])
    rw [stableAt_append_of_le (Nat.le_of_lt hlt)] at hplace
    exact hplace
  · obtain ⟨-, hnumber, hparent⟩ := hlinked line.length header List.getElem?_concat_length
    rw [stableAt_append_of_le (Nat.le_refl _)] at hparent
    exact ⟨hnumber, hparent⟩

theorem mem (hlinked : Linked env chain line) (h : header ∈ line) :
    header.mc = chain ∧ 1 ≤ header.number ∧ (line)[header.number - 1]? = some header := by
  obtain ⟨n, hn⟩ := mem_iff_getElem?.mp h
  obtain ⟨hmc, hnumber, -⟩ := hlinked n header hn
  refine ⟨hmc, by omega, ?_⟩
  rw [hnumber]
  exact hn

theorem nodup (hlinked : Linked env chain line) : line.Nodup := by
  rw [nodup_iff_getElem?_ne_getElem?]
  intro i j hij hj heq
  obtain ⟨header, hheader⟩ : ∃ header, (line)[j]? = some header := ⟨_, getElem?_eq_getElem hj⟩
  have hi := (hlinked i header (heq.trans hheader)).2.1
  have hj' := (hlinked j header hheader).2.1
  omega

end Linked

/-- Each header is kept under its hash, each height of a chain leads to its unit, and the tail to
the last one. -/
structure Represents (env : Env) (db : Db) (line : Address → List Header) : Prop where
  linked : ∀ chain, Linked env chain (line chain)
  header : ∀ hash header, db.header hash = some header ↔
    header.hash = hash ∧ (header = env.genesis ∨ header ∈ line header.mc)
  stable : ∀ chain n, db.stableHash chain (n + 1) = stableAt env (line chain) (n + 1)
  tail : ∀ chain, db.tailHash chain = stableAt env (line chain) (line chain).length ∨
    line chain = [] ∧ db.tailHash chain = .zero

def Db.genesis (env : Env) : Db where
  header := update (fun _ => none) env.genesis.hash (some env.genesis)
  stableHash := fun chain n =>
    if chain = env.scAccount ∧ n = 0 then env.genesis.hash else .zero
  tailHash := fun chain =>
    if chain = env.scAccount ∨ chain ∈ env.genesisChains then env.genesis.hash else .zero
  pendingUnit := []
  body := fun _ => none
  receipts := fun _ => false
  state := fun root => root == env.genesis.stateRoot
  children := .empty
  txStatus := fun _ => []

namespace Represents

theorem genesis : Represents env (Db.genesis env) fun _ => [] := by
  refine ⟨Linked.nil, fun hash header => ?_, fun chain n => ?_, fun chain => ?_⟩
  · simp only [Db.genesis, update_apply, not_mem_nil, or_false]
    constructor
    · intro h
      split_ifs at h with hhash
      obtain rfl := some.inj h
      exact ⟨hhash.symm, rfl⟩
    · rintro ⟨rfl, rfl⟩
      rw [if_pos rfl]
  · simp [Db.genesis, stableAt]
  · simp only [Db.genesis, stableAt, length_nil, true_and]
    split_ifs
    · exact .inl rfl
    · exact .inr rfl

variable {db : Db} {line : Address → List Header}

theorem congr (h : Represents env db line) {db' : Db} (hheader : db'.header = db.header)
    (hstable : db'.stableHash = db.stableHash) (htail : db'.tailHash = db.tailHash) :
    Represents env db' line := by
  refine ⟨h.linked, ?_, ?_, ?_⟩
  · rw [hheader]
    exact h.header
  · rw [hstable]
    exact h.stable
  · rw [htail]
    exact h.tail

theorem header_genesis (h : Represents env db line) :
    db.header env.genesis.hash = some env.genesis :=
  (h.header _ _).mpr ⟨rfl, .inl rfl⟩

theorem header_of_mem (h : Represents env db line) (hmem : header ∈ line chain) :
    db.header header.hash = some header := by
  rw [← ((h.linked chain).mem hmem).1] at hmem
  exact (h.header _ _).mpr ⟨rfl, .inr hmem⟩

theorem number_of_genesis : env.genesis.number = 0 := env.genesis_number

theorem mem_line (h : Represents env db line) {hash : Hash} (hheader : db.header hash = some header)
    (hnumber : header.number ≠ 0) : header ∈ line header.mc := by
  obtain ⟨-, hgenesis | hmem⟩ := (h.header _ _).mp hheader
  · exact absurd (hgenesis ▸ number_of_genesis) hnumber
  · exact hmem

theorem extends_line (h : Represents env db line) {u parent : Header}
    (hparent : db.header u.parentHash = some parent) (hmc : u.number = 1 ∨ u.mc = parent.mc)
    (hnumber : u.number = parent.number + 1) (hfree : db.stableHash u.mc u.number = .zero) :
    u.number = (line u.mc).length + 1 ∧
      u.parentHash = stableAt env (line u.mc) (line u.mc).length := by
  have hlt : (line u.mc).length < u.number := by
    by_contra hle
    rw [hnumber, h.stable] at hfree
    rw [hnumber] at hle
    exact stableAt_ne_zero_iff.mpr (Nat.le_of_not_lt hle) hfree
  have hhash := ((h.header _ _).mp hparent).1
  by_cases hzero : parent.number = 0
  · -- only the genesis unit has height zero
    obtain ⟨-, hgenesis | hmem⟩ := (h.header _ _).mp hparent
    · have hlen : (line u.mc).length = 0 := by omega
      refine ⟨by omega, ?_⟩
      rw [hlen, stableAt, ← hhash, hgenesis]
    · have := ((h.linked parent.mc).mem hmem).2.1
      omega
  · have hmem := h.mem_line hparent hzero
    have hsame : u.mc = parent.mc := hmc.resolve_left (by omega)
    rw [← hsame] at hmem
    obtain ⟨-, hpos, hplace⟩ := (h.linked u.mc).mem hmem
    have hbelow : parent.number - 1 < (line u.mc).length :=
      (List.getElem?_eq_some_iff.mp hplace).1
    have hlen : (line u.mc).length = parent.number - 1 + 1 := by omega
    refine ⟨by omega, ?_⟩
    rw [hlen, stableAt, hplace, ← hhash]
    rfl

theorem writeHead_header (u : DagUnit) :
    (db.writeHead env u).header = update db.header u.hash (some u.header) := by
  unfold Db.writeHead
  split_ifs <;> rfl

theorem writeHead_stableHash (u : DagUnit) : (db.writeHead env u).stableHash =
    update db.stableHash u.mc (update (db.stableHash u.mc) u.number u.hash) := by
  unfold Db.writeHead
  split_ifs <;> rfl

theorem writeHead_tailHash (u : DagUnit) :
    (db.writeHead env u).tailHash = update db.tailHash u.mc u.hash := by
  unfold Db.writeHead
  split_ifs <;> rfl

theorem writeHead (h : Represents env db line) {u : DagUnit} (hnew : db.header u.hash = none)
    (hnumber : u.number = (line u.mc).length + 1)
    (hparent : u.header.parentHash = stableAt env (line u.mc) (line u.mc).length) :
    Represents env (db.writeHead env u) (update line u.mc (line u.mc ++ [u.header])) := by
  refine ⟨fun chain => ?_, fun hash header => ?_, fun chain n => ?_, fun chain => ?_⟩
  · rw [update_apply]
    split_ifs with hchain
    · subst hchain
      exact (h.linked u.mc).append rfl hnumber hparent
    · exact h.linked chain
  · have hline : header ∈ update line u.mc (line u.mc ++ [u.header]) header.mc ↔
        header ∈ line header.mc ∨ header = u.header := by
      rw [update_apply]
      split_ifs with hmc
      · rw [mem_append, mem_singleton, hmc]
      · refine ⟨.inl, fun hmem => hmem.resolve_right fun heq => hmc ?_⟩
        rw [heq]
        rfl
    rw [writeHead_header, update_apply, hline]
    split_ifs with hhash
    · constructor
      · intro heq
        obtain rfl := some.inj heq
        exact ⟨hhash.symm, .inr (.inr rfl)⟩
      · rintro ⟨heq, hcase⟩
        -- a header with this hash was not there before
        have habsent : ¬(header = env.genesis ∨ header ∈ line header.mc) := by
          intro hold
          have := (h.header u.hash header).mpr ⟨heq.trans hhash, hold⟩
          rw [hnew] at this
          cases this
        rcases hcase with hgenesis | hmem | heq
        · exact absurd (.inl hgenesis) habsent
        · exact absurd (.inr hmem) habsent
        · rw [heq]
    · rw [h.header]
      constructor
      · rintro ⟨heq, hgenesis | hmem⟩
        · exact ⟨heq, .inl hgenesis⟩
        · exact ⟨heq, .inr (.inl hmem)⟩
      · rintro ⟨heq, hgenesis | hmem | hu⟩
        · exact ⟨heq, .inl hgenesis⟩
        · exact ⟨heq, .inr hmem⟩
        · exact absurd (heq.symm.trans (congrArg Header.hash hu)) hhash
  · rw [writeHead_stableHash, update_apply, update_apply]
    split_ifs with hchain
    · subst hchain
      rw [update_apply, hnumber]
      split_ifs with hn
      · rw [hn, stableAt_append_length]
        rfl
      rw [h.stable]
      by_cases hle : n + 1 ≤ (line u.mc).length
      · rw [stableAt_append_of_le hle]
      have hlen : (line u.mc ++ [u.header]).length < n + 1 := by
        rw [length_append, length_singleton]
        omega
      rw [stableAt_of_lt (Nat.lt_of_not_le hle), stableAt_of_lt hlen]
    · exact h.stable chain n
  · rw [writeHead_tailHash, update_apply, update_apply]
    split_ifs with hchain
    · subst hchain
      rw [length_append, length_singleton, stableAt_append_length]
      exact .inl rfl
    · exact h.tail chain

theorem getLast_of_tail (h : Represents env db line) (hheader : db.header header.hash = some header)
    (hnumber : header.number ≠ 0) (htail : db.tailHash header.mc = header.hash) :
    ∃ init, line header.mc = init ++ [header] := by
  have hmem := h.mem_line hheader hnumber
  have hlast := (h.tail header.mc).resolve_right
    (fun hempty => header.hash_ne (htail.symm.trans hempty.2))
  obtain ⟨init, last, hline⟩ : ∃ init last, line header.mc = init ++ [last] := by
    refine ⟨_, _, (dropLast_append_getLast ?_).symm⟩
    intro hempty
    rw [hempty] at hmem
    exact not_mem_nil hmem
  have hlastmem : last ∈ line header.mc := by
    rw [hline]
    exact mem_append_right _ (mem_singleton.mpr rfl)
  rw [hline, length_append, length_singleton, stableAt_append_length, htail] at hlast
  have heq : some header = some last := by
    rw [← hheader, hlast]
    exact h.header_of_mem hlastmem
  rw [some.inj heq]
  exact ⟨init, some.inj heq ▸ hline⟩

theorem removeTail (h : Represents env db line) {init : List Header}
    (hline : line header.mc = init ++ [header]) :
    Represents env ((Node.unlinked db header).deleteUnit header.hash)
      (update line header.mc init) := by
  have hmem : header ∈ line header.mc := by
    rw [hline]
    exact mem_append_right _ (mem_singleton.mpr rfl)
  have hlinked := h.linked header.mc
  rw [hline] at hlinked
  obtain ⟨hinit, hnumber, hparent⟩ := hlinked.of_append
  refine ⟨fun chain => ?_, fun hash header' => ?_, fun chain n => ?_, fun chain => ?_⟩
  · rw [update_apply]
    split_ifs with hchain
    · exact hchain ▸ hinit
    · exact h.linked chain
  · change update db.header header.hash none hash = some header' ↔ _
    have hset : header' ∈ update line header.mc init header'.mc ↔
        header' ∈ line header'.mc ∧ header' ≠ header := by
      rw [update_apply]
      split_ifs with hmc
      · have hlast : header ∉ init := by
          have hnodup := hlinked.nodup
          rw [nodup_append] at hnodup
          exact fun hin => hnodup.2.2 header hin header (mem_singleton.mpr rfl) rfl
        rw [hmc, hline, mem_append, mem_singleton]
        constructor
        · intro hin
          exact ⟨.inl hin, fun heq => hlast (heq ▸ hin)⟩
        · rintro ⟨hin | heq, hne⟩
          · exact hin
          · exact absurd heq hne
      · exact Iff.intro (fun hin => ⟨hin, fun heq => hmc (heq ▸ rfl)⟩) And.left
    rw [update_apply, hset]
    split_ifs with hhash
    · refine Iff.intro (fun hnone => nomatch hnone) ?_
      rintro ⟨heq, hcase⟩
      -- the header under this hash is the one that was cleared
      have hold : db.header header.hash = some header' := by
        refine (h.header _ _).mpr ⟨heq.trans hhash, ?_⟩
        rcases hcase with hgenesis | hin
        · exact .inl hgenesis
        · exact .inr hin.1
      rw [h.header_of_mem hmem] at hold
      have hsame := some.inj hold
      rcases hcase with hgenesis | hin
      · have hzero : header.number = 0 := by
          rw [hsame, hgenesis]
          exact number_of_genesis
        omega
      · exact absurd hsame.symm hin.2
    · rw [h.header]
      constructor
      · rintro ⟨heq, hgenesis | hin⟩
        · exact ⟨heq, .inl hgenesis⟩
        · exact ⟨heq, .inr ⟨hin, fun hsame => hhash (heq ▸ hsame ▸ rfl)⟩⟩
      · rintro ⟨heq, hgenesis | hin⟩
        · exact ⟨heq, .inl hgenesis⟩
        · exact ⟨heq, .inr hin.1⟩
  · change update db.stableHash header.mc
      (update (db.stableHash header.mc) header.number .zero) chain (n + 1) = _
    rw [update_apply, update_apply]
    split_ifs with hchain
    · rw [update_apply]
      split_ifs with hn
      · exact (stableAt_of_lt (by omega)).symm
      rw [h.stable, hline]
      by_cases hle : n + 1 ≤ init.length
      · rw [stableAt_append_of_le hle]
      have hlen : (init ++ [header]).length < n + 1 := by
        rw [length_append, length_singleton]
        omega
      rw [stableAt_of_lt (Nat.lt_of_not_le hle), stableAt_of_lt hlen]
    · exact h.stable chain n
  · change update db.tailHash header.mc
      (if header.number = 1 then .zero else header.parentHash) chain = _ ∨
        _ ∧ update db.tailHash header.mc
          (if header.number = 1 then .zero else header.parentHash) chain = _
    rw [update_apply, update_apply]
    split_ifs with hchain hone
    · exact .inr ⟨length_eq_zero_iff.mp (by omega), rfl⟩
    · exact .inl hparent
    · exact h.tail chain

end Represents

end Nerthus.Chain
