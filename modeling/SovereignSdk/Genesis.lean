import SovereignSdk.StfBlueprint.Slot

/-! Genesis of the modules, and that it leaves a solvent rollup behind. -/
namespace SovereignSdk
open Bounded Outcome Accounts

variable {S : Spec}

/-- `TokenConfig`; the decimals are not used by the genesis. -/
structure TokenConfig (S : Spec) where
  tokenName : String
  tokenId : TokenId
  addressAndBalances : List (S.Address × Amount)
  admins : List S.Address
  supplyCap : Option Amount

/-- `BankConfig`: the gas token, if there is one, is created first. -/
structure BankConfig (S : Spec) where
  gasTokenConfig : Option (TokenConfig S)
  tokens : List (TokenConfig S)

structure SequencerConfig (S : Spec) where
  seqRollupAddress : S.Address
  seqDaAddress : S.DaAddress
  seqBond : Amount
  isPreferredSequencer : Bool

structure SequencerRegistryConfig (S : Spec) where
  minimumBond : Amount
  sequencerConfig : SequencerConfig S

structure ChainStateConfig (S : Spec) where
  operatingMode : OperatingMode
  admin : Option S.Address
  rewardAddress : S.Address

structure GenesisConfig (S : Spec) where
  bank : BankConfig S
  sequencerRegistry : SequencerRegistryConfig S
  chainState : ChainStateConfig S

inductive GenesisError where
  | overflowedTokenSupply
  | supplyExceedsCap
  | tokenAlreadyExists
  | registration (error : RegistryError)
deriving DecidableEq, Repr

namespace Bank

/-- One genesis balance; a repeated address overwrites the earlier balance, but
counts towards the supply each time. -/
def setGenesisBalance (token : TokenId) (state : Bank S × Nat) (entry : S.Address × Amount) :
    Except GenesisError (Bank S × Nat) := do
  let supply ← unwrap .overflowedTokenSupply (checkedAdd amountMax state.2 entry.2)
  return (state.1.setBalance (.user entry.1) token entry.2, supply)

def createGenesisToken (b : Bank S) (config : TokenConfig S) : Except GenesisError (Bank S) := do
  let (b, totalSupply) ← config.addressAndBalances.foldlM (setGenesisBalance config.tokenId) (b, 0)
  let supplyCap := (config.supplyCap.map Fin.val).getD amountMax
  if supplyCap < totalSupply then .error .supplyExceedsCap
  else if (b.tokens config.tokenId).isSome then .error .tokenAlreadyExists
  else
    .ok (b.setToken config.tokenId
      ⟨config.tokenName, totalSupply, supplyCap, (config.admins.map TokenHolder.user).eraseDups⟩)

def initModule (config : BankConfig S) : Except GenesisError (Bank S) :=
  let gasToken := config.gasTokenConfig.map fun c : TokenConfig S => { c with tokenId := S.gasTokenId }
  (gasToken.toList ++ config.tokens).foldlM createGenesisToken empty

end Bank

/-- Genesis of the sequencer registry: the one sequencer is registered with a
minimum bond of zero, the configured minimum is set afterwards. -/
def Accounts.initModule (bank : Bank S) (config : SequencerRegistryConfig S) : Except GenesisError (Accounts S) :=
  let seq := config.sequencerConfig
  match (⟨bank, ⟨fun _ => none, none, some 0⟩⟩ : Accounts S).registerStaker seq.seqDaAddress seq.seqBond
      seq.seqRollupAddress with
  | .error e => .error (.registration e)
  | .ok s =>
    .ok { s with
      registry :=
        { s.registry with
          minimumBond := some config.minimumBond
          preferredSequencer := if seq.isPreferredSequencer then some seq.seqDaAddress else none } }

def genesis (config : GenesisConfig S) : Except GenesisError (RollupState S) := do
  let bank ← Bank.initModule config.bank
  let accounts ← Accounts.initModule bank config.sequencerRegistry
  return ⟨.genesis config.chainState.operatingMode config.chainState.admin config.chainState.rewardAddress,
    accounts, .empty⟩

namespace Bank

theorem covered_empty : (empty : Bank S).Covered where
  total := fun token A => by simp [balanceOf, empty]
  supply_le := fun token => by simp [supplyOf, empty]

/-- What the balances of a token set so far add up to. -/
structure GenesisBalances (b : Bank S) (token : TokenId) (c : Bank S) (supply : Nat) : Prop where
  tokens : c.tokens = b.tokens
  other : ∀ h t, t ≠ token → c.balanceOf h t = b.balanceOf h t
  total : TotalAtMost (fun h => c.balanceOf h token) supply
  supply_le : supply ≤ amountMax

variable {b : Bank S} {token : TokenId}

variable {state state' : Bank S × Nat} {entries : List (S.Address × Amount)} {b' : Bank S} {config : TokenConfig S}

theorem GenesisBalances.set {entry} (hb : GenesisBalances b token state.1 state.2)
    (h : setGenesisBalance token state entry = .ok state') : GenesisBalances b token state'.1 state'.2 := by
  simp only [setGenesisBalance, bind_eq_ok, unwrap_eq_ok, checkedAdd_eq_some, pure_eq_ok] at h
  obtain ⟨_, ⟨hLe, rfl⟩, rfl⟩ := h
  refine ⟨hb.tokens, fun h t ht => ?_, ?_, hLe⟩
  · rw [balanceOf_setBalance, if_neg (fun hEq => ht hEq.2)]
    exact hb.other h t ht
  · refine hb.total.change (.user entry.1) (fun h hne => ?_) fun rest hRest => ?_
    · rw [balanceOf_setBalance, if_neg (fun hEq => hne hEq.1)]
    · rw [balanceOf_setBalance, if_pos ⟨rfl, rfl⟩]
      omega

theorem setGenesisBalances_tokens (h : entries.foldlM (setGenesisBalance token) state = .ok state') :
    state'.1.tokens = state.1.tokens := by
  refine foldlM_invariant (fun s : Bank S × Nat => s.1.tokens = state.1.tokens) ?_ rfl h
  intro s entry s' hs hStep
  simp only [setGenesisBalance, bind_eq_ok, pure_eq_ok] at hStep
  obtain ⟨_, -, rfl⟩ := hStep
  exact hs

theorem setGenesisBalances_ok {c supply} (hb : b.Covered) (hNone : b.tokens token = none)
    (h : entries.foldlM (setGenesisBalance token) (b, 0) = .ok (c, supply)) : GenesisBalances b token c supply := by
  have hStart : GenesisBalances b token b 0 := by
    refine ⟨rfl, fun _ _ _ => rfl, ?_, Nat.zero_le _⟩
    have hTotal := hb.total token
    rwa [supplyOf, hNone] at hTotal
  exact foldlM_invariant (fun s : Bank S × Nat => GenesisBalances b token s.1 s.2)
    (fun _ _ _ hs hStep => hs.set hStep) hStart h

theorem createGenesisToken_ok (h : b.createGenesisToken config = .ok b') :
    ∃ c t, config.addressAndBalances.foldlM (setGenesisBalance config.tokenId) (b, 0) = .ok (c, t.totalSupply) ∧
      b.tokens config.tokenId = none ∧ c.tokens = b.tokens ∧ t.totalSupply ≤ t.supplyCap ∧
      b' = c.setToken config.tokenId t := by
  simp only [createGenesisToken, bind_eq_ok] at h
  obtain ⟨⟨c, supply⟩, hBals, h⟩ := h
  split at h
  · cases h
  · rename_i hCap
    split at h
    · cases h
    · rename_i hNew
      cases h
      have hTokens : c.tokens = b.tokens := setGenesisBalances_tokens hBals
      refine ⟨c, _, hBals, ?_, hTokens, Nat.le_of_not_lt hCap, rfl⟩
      rw [← hTokens]
      simpa using hNew

theorem createGenesisToken_covered (hb : b.Covered) (h : b.createGenesisToken config = .ok b') : b'.Covered := by
  obtain ⟨c, t, hBals, hNone, hTokens, -, rfl⟩ := createGenesisToken_ok h
  have hFinal := setGenesisBalances_ok hb hNone hBals
  have hSupply : ∀ k, c.supplyOf k = b.supplyOf k := fun k => by rw [supplyOf, hTokens]; rfl
  refine ⟨fun k => ?_, fun k => ?_⟩
  · simp only [supplyOf_setToken_eq, hSupply]
    by_cases hk : k = config.tokenId
    · rw [if_pos hk, hk]
      exact hFinal.total
    · rw [if_neg hk]
      exact (hb.total k).anti fun holder => (hFinal.other holder k hk).le
  · rw [supplyOf_setToken_eq, hSupply]
    split
    · exact hFinal.supply_le
    · exact hb.supply_le k

theorem initModule_covered {config} (h : initModule config = .ok b) : b.Covered :=
  foldlM_invariant (fun b : Bank S => b.Covered) (fun _ _ _ => createGenesisToken_covered) covered_empty h

end Bank

theorem Accounts.initModule_solvent {bank : Bank S} {config s}
    (hb : bank.Covered) (h : initModule bank config = .ok s) : s.Solvent := by
  simp only [initModule] at h
  split at h
  · cases h
  · rename_i registered hRegister
    cases h
    have hStart : (⟨bank, ⟨fun _ => none, none, some 0⟩⟩ : Accounts S).Solvent :=
      ⟨hb, fun A => by simp [stakeOf, known]⟩
    obtain ⟨hKnown, hReg, hMoved⟩ := registerStaker_ok hRegister
    let address := config.sequencerConfig.seqRollupAddress
    have hEffect : CallEffect ⟨address, address, config.sequencerConfig.seqDaAddress⟩ 0 _ registered _ :=
      .register hKnown hReg hMoved
    have hSolv := hEffect.solvent hStart
    exact ⟨hSolv.covered, hSolv.staked⟩

/-- Genesis leaves a state in which the first slot can start. -/
theorem genesis_atGenesis {config : GenesisConfig S} {st : RollupState S} (h : genesis config = .ok st) :
    st.AtGenesis := by
  simp only [genesis, bind_eq_ok, pure_eq_ok] at h
  obtain ⟨bank, hBank, accounts, hAcc, rfl⟩ := h
  exact ⟨rfl, rfl, rfl, initModule_solvent (Bank.initModule_covered hBank) hAcc, rfl⟩

def soloGenesis (address : S.Address) (sequencer : S.DaAddress) (funds bond : Amount) (preferred : Bool) :
    GenesisConfig S where
  bank := { gasTokenConfig := some ⟨"gas", 0, [(address, funds)], [], none⟩, tokens := [] }
  sequencerRegistry := ⟨0, ⟨address, sequencer, bond, preferred⟩⟩
  chainState := ⟨.zk, none, address⟩

end SovereignSdk
