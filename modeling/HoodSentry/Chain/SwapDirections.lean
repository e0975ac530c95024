import HoodSentry.Chain.Model.SwapLogs
/-!
# Which swaps are decoded

Of the swaps a pair can emit, `decodeSwap` decodes those with one
direction: one token in and nothing but the other out. All others, such as
one with a dust amount of the second token in, it rejects by an error of
their own (`decodeSwap_emitted`).
-/

namespace HoodSentry

namespace UniswapV2

/-- **A swap has one direction**: one token comes in, only the other goes
out. -/
def OneDirection (a : SwapAmounts) : Prop :=
  (0 < a.amount0In ∧ a.amount1In = 0 ∧ a.amount0Out = 0 ∧ 0 < a.amount1Out) ∨
    (0 < a.amount1In ∧ a.amount0In = 0 ∧ a.amount1Out = 0 ∧ 0 < a.amount0Out)

/-- **A pool of the decoder emitted a swap** of some amounts. -/
structure Emitted (d : SwapDecoder) (log : RawChainLog) (pool : NormalizedPool) (a : SwapAmounts) :
    Prop where
  valid : log.Valid
  registered : d.pools log.address.lower = some pool
  topics : ∃ topic sender recipient, log.topics = [topic, sender, recipient] ∧
    lowerCase topic = lowerCase swapTopic ∧ sender.length = 66 ∧ recipient.length = 66
  amounts : d.decodeSwapData log.data = some a

theorem oneDirection_iff {a : SwapAmounts} :
    OneDirection a ↔ (a.zeroToOne || a.oneToZero) = true := by
  simp [OneDirection, SwapAmounts.zeroToOne, SwapAmounts.oneToZero, and_assoc]

theorem exists_digits_of_isHex {text : String} (h : isHex text = true) :
    ∃ digits, text.toList = '0' :: 'x' :: digits ∧ ∀ c ∈ digits, isHexDigit c = true := by
  unfold isHex at h
  split at h
  · rename_i digits hdigits
    exact ⟨digits, hdigits, List.all_eq_true.mp h⟩
  · exact absurd h Bool.false_ne_true

/-- An indexed address is read from any topic of 32 bytes. -/
theorem exists_indexedAddress {topic name : String} (hhex : isHex topic = true)
    (hlength : topic.length = 66) : ∃ address, indexedAddress (some topic) name = .ok address := by
  obtain ⟨digits, hdigits, hall⟩ := exists_digits_of_isHex hhex
  have htext : topic.toList.length = 66 := by
    rw [String.length_toList, hlength]
  have hcount : digits.length = 64 := by
    rw [hdigits] at htext
    simpa using htext
  have hlast : topic.toList.drop (topic.toList.length - 40) = digits.drop 24 := by
    rw [htext, hdigits]
    rfl
  have hvalid : (∀ c ∈ digits.drop 24, isHexDigit c = true) ∧ (digits.drop 24).length = 40 := by
    refine ⟨fun c hc => hall c (List.mem_of_mem_drop hc), ?_⟩
    rw [List.length_drop, hcount]
  rw [← hlast] at hvalid
  refine ⟨⟨_, hvalid.1, hvalid.2⟩, ?_⟩
  simp only [indexedAddress, Option.map_some, htext, ne_eq, not_true_eq_false, if_false]
  exact dif_pos (by simpa only [htext] using hvalid)

/-- A swap log of a registered pool is decoded by its amounts alone. -/
theorem decodeSwap_of_emitted {d : SwapDecoder} {log : RawChainLog} {pool : NormalizedPool}
    {a : SwapAmounts} (h : Emitted d log pool a) :
    ∃ sender recipient, d.decodeSwap log =
      if a.zeroToOne || a.oneToZero then .ok (some (d.swapOf log pool a sender recipient))
      else .error (.malformedProtocolLog "Swap amounts do not define one direction") := by
  obtain ⟨topic, from_, to_, htopics, hswap, hsender, hrecipient⟩ := h.topics
  have hhex : ∀ t ∈ log.topics, isHex t = true := by
    obtain ⟨-, -, -, -, -, -, -, -, hall, -⟩ := h.valid
    exact List.all_eq_true.mp hall
  obtain ⟨sender, hsender⟩ :=
    @exists_indexedAddress _ "sender" (hhex from_ (by simp [htopics])) hsender
  obtain ⟨recipient, hrecipient⟩ :=
    @exists_indexedAddress _ "recipient" (hhex to_ (by simp [htopics])) hrecipient
  refine ⟨sender, recipient, ?_⟩
  have hparse : parseRawChainLog log = .ok log := if_pos h.valid
  have hpool : d.requirePool log.address = .ok pool := by
    rw [SwapDecoder.requirePool, h.registered]
  have hcount : assertTopics log 3 = .ok () := if_pos (by rw [htopics]; rfl)
  have hamounts : d.decodeAmounts log = .ok a := by
    rw [SwapDecoder.decodeAmounts, h.amounts]
  have hhead : log.topics.head?.map lowerCase = some (lowerCase swapTopic) := by
    rw [htopics, List.head?_cons, Option.map_some, hswap]
  have hfirst : log.topics[1]? = some from_ := by rw [htopics]; rfl
  have hsecond : log.topics[2]? = some to_ := by rw [htopics]; rfl
  unfold SwapDecoder.decodeSwap
  rw [hparse]
  simp only [bind, Except.bind, hhead, ne_eq, not_true_eq_false, if_false, hpool, hcount, hamounts,
    hfirst, hsecond, hsender, hrecipient, pure, Except.pure]

/-- **Which swaps are decoded**: one with a direction becomes a swap of
the pool's two tokens, what is in less what is out of the one for what is
out less what is in of the other; any other is rejected. -/
theorem decodeSwap_emitted {d : SwapDecoder} {log : RawChainLog} {pool : NormalizedPool}
    {a : SwapAmounts} (h : Emitted d log pool a) :
    (OneDirection a → ∃ swap, d.decodeSwap log = .ok (some swap) ∧
      swap.poolAddress = pool.poolAddress ∧ 0 < swap.amountInRaw ∧ 0 < swap.amountOutRaw ∧
      ((swap.tokenInAddress = pool.token0Address ∧ swap.tokenOutAddress = pool.token1Address ∧
          (swap.amountInRaw : ℤ) = a.amount0In - a.amount0Out ∧
          (swap.amountOutRaw : ℤ) = a.amount1Out - a.amount1In) ∨
        (swap.tokenInAddress = pool.token1Address ∧ swap.tokenOutAddress = pool.token0Address ∧
          (swap.amountInRaw : ℤ) = a.amount1In - a.amount1Out ∧
          (swap.amountOutRaw : ℤ) = a.amount0Out - a.amount0In))) ∧
    (¬OneDirection a → d.decodeSwap log =
      .error (.malformedProtocolLog "Swap amounts do not define one direction")) := by
  obtain ⟨sender, recipient, hdecode⟩ := decodeSwap_of_emitted h
  rw [hdecode]
  refine ⟨fun hone => ⟨d.swapOf log pool a sender recipient, if_pos (oneDirection_iff.mp hone),
    rfl, ?_⟩, fun hnot => if_neg fun hone => hnot (oneDirection_iff.mpr hone)⟩
  rcases hone with ⟨hin, hin', hout', hout⟩ | ⟨hin, hin', hout', hout⟩
  · have hzero : a.zeroToOne = true := by
      simp [SwapAmounts.zeroToOne, hin, hin', hout', hout]
    simp only [SwapDecoder.swapOf, hzero, if_true]
    refine ⟨hin, hout, .inl ⟨trivial, trivial, ?_, ?_⟩⟩ <;> omega
  · have hzero : a.zeroToOne = false := by
      simp [SwapAmounts.zeroToOne, hin']
    simp only [SwapDecoder.swapOf, hzero, Bool.false_eq_true, if_false]
    refine ⟨hin, hout, .inr ⟨trivial, trivial, ?_, ?_⟩⟩ <;> omega

/-! ## Swaps of one pool -/

def swappedPool : NormalizedPool where
  chainId := 1
  protocolKey := "uniswap"
  protocolVersion := "v2"
  poolAddress := repeatedAddress '7' rfl
  factoryAddress := repeatedAddress '8' rfl
  token0Address := repeatedAddress '9' rfl
  token1Address := repeatedAddress 'a' rfl
  feeTier := some 3000
  poolType := .constantProduct
  canonical := true

/-- A word of 32 bytes holding a digit. -/
def wordOf (n : ℕ) : List Char := List.replicate 63 '0' ++ [Nat.digitChar n]

/-- The data of a swap of digits. -/
def swapDataOf (a : SwapAmounts) : String :=
  String.ofList ('0' :: 'x' :: (wordOf a.amount0In ++ wordOf a.amount1In ++ wordOf a.amount0Out ++
    wordOf a.amount1Out))

def swapLog (a : SwapAmounts) : RawChainLog where
  chainId := 1
  blockNumber := 9
  blockHash := String.ofList ('0' :: 'x' :: List.replicate 64 'a')
  transactionHash := String.ofList ('0' :: 'x' :: List.replicate 64 'b')
  transactionIndex := 0
  logIndex := 3
  address := swappedPool.poolAddress
  topics := [swapTopic, String.ofList ('0' :: 'x' :: wordOf 7),
    String.ofList ('0' :: 'x' :: wordOf 8)]
  data := swapDataOf a
  removed := false
  canonical := true

/-- A decoder that knows the pool and decodes one swap. -/
def swapDecoder (a : SwapAmounts) : SwapDecoder where
  protocolKey := "uniswap"
  version := "v2"
  chainId := 1
  pools key := if key = swappedPool.poolAddress.lower then some swappedPool else none
  decodeSwapData data := if data = swapDataOf a then some a else none

def plainSwap : SwapAmounts := ⟨5, 0, 0, 7⟩

/-- The same with a dust amount of the second token in. -/
def dustedSwap : SwapAmounts := ⟨5, 1, 0, 7⟩

theorem isHex_ofList {digits : List Char} (h : ∀ c ∈ digits, isHexDigit c = true) :
    isHex (String.ofList ('0' :: 'x' :: digits)) = true := by
  simpa [isHex] using h

theorem isHex_wordOf {n : ℕ} (h : n < 10) : ∀ c ∈ wordOf n, isHexDigit c = true := by
  intro c hc
  rcases List.mem_append.mp hc with hc | hc
  · rw [List.eq_of_mem_replicate hc]
    rfl
  · rw [List.mem_singleton.mp hc]
    interval_cases n <;> rfl

theorem length_ofList_digits {digits : List Char} (h : digits.length = 64) :
    (String.ofList ('0' :: 'x' :: digits)).length = 66 := by
  rw [← String.length_toList, String.toList_ofList, List.length_cons, List.length_cons, h]

theorem emitted_swapLog {a : SwapAmounts} (h0 : a.amount0In < 10) (h1 : a.amount1In < 10)
    (h2 : a.amount0Out < 10) (h3 : a.amount1Out < 10) :
    Emitted (swapDecoder a) (swapLog a) swappedPool a where
  valid := by
    have hhash : ∀ c : Char, isHexDigit c = true →
        isHash (String.ofList ('0' :: 'x' :: List.replicate 64 c)) = true := by
      intro c hc
      have hall : ∀ d ∈ List.replicate 64 c, isHexDigit d = true := fun d hd =>
        List.eq_of_mem_replicate hd ▸ hc
      rw [isHash, isHex_ofList hall, length_ofList_digits List.length_replicate]
      rfl
    have hswap : isHex swapTopic = true := by decide +kernel
    have hdata : isHex (swapDataOf a) = true := by
      refine isHex_ofList fun c hc => ?_
      simp only [List.mem_append] at hc
      rcases hc with ((hc | hc) | hc) | hc
      · exact isHex_wordOf h0 c hc
      · exact isHex_wordOf h1 c hc
      · exact isHex_wordOf h2 c hc
      · exact isHex_wordOf h3 c hc
    have hchain : (0 : ℤ) < 1 ∧ (1 : ℤ) ≤ maxSafeInteger ∧ (0 : ℤ) ≤ 9 ∧ (0 : ℤ) ≤ 0 ∧
        (0 : ℤ) ≤ 3 := by
      decide
    obtain ⟨hone, hsafe, hblock, hzero, hindex⟩ := hchain
    refine ⟨hone, hsafe, hblock, hhash 'a' rfl, hhash 'b' rfl, hzero, hindex,
      ⟨Nat.le_add_left 1 2, Nat.le_succ 3⟩, ?_, hdata⟩
    refine List.all_eq_true.mpr fun topic htopic => ?_
    simp only [swapLog, List.mem_cons, List.not_mem_nil, or_false] at htopic
    rcases htopic with rfl | rfl | rfl
    · exact hswap
    · exact isHex_ofList (isHex_wordOf (by decide))
    · exact isHex_ofList (isHex_wordOf (by decide))
  registered := if_pos (c := swappedPool.poolAddress.lower = swappedPool.poolAddress.lower) (e := none) rfl
  topics := ⟨_, _, _, rfl, rfl, length_ofList_digits rfl, length_ofList_digits rfl⟩
  amounts := if_pos (c := swapDataOf a = swapDataOf a) (e := none) rfl

theorem decodeSwap_plainSwap :
    ∃ swap, (swapDecoder plainSwap).decodeSwap (swapLog plainSwap) = .ok (some swap) ∧
      0 < swap.amountInRaw := by
  have hemitted : Emitted (swapDecoder plainSwap) (swapLog plainSwap) swappedPool plainSwap :=
    emitted_swapLog (by decide) (by decide) (by decide) (by decide)
  obtain ⟨hdecoded, -⟩ := decodeSwap_emitted hemitted
  obtain ⟨swap, hswap, -, hpos, -⟩ := hdecoded (.inl ⟨by decide, rfl, rfl, by decide⟩)
  exact ⟨swap, hswap, hpos⟩

theorem not_decodeSwap :
    ¬∀ (d : SwapDecoder) (log : RawChainLog) (pool : NormalizedPool) (a : SwapAmounts),
      Emitted d log pool a → (0 < a.amount0In ∨ 0 < a.amount1In) →
        (0 < a.amount0Out ∨ 0 < a.amount1Out) → ∃ swap, d.decodeSwap log = .ok (some swap) := by
  intro h
  have hemitted : Emitted (swapDecoder dustedSwap) (swapLog dustedSwap) swappedPool dustedSwap :=
    emitted_swapLog (by decide) (by decide) (by decide) (by decide)
  obtain ⟨swap, hswap⟩ := h _ _ _ _ hemitted (.inl (by decide)) (.inr (by decide))
  obtain ⟨sender, recipient, hdecode⟩ := decodeSwap_of_emitted hemitted
  rw [if_neg (by decide)] at hdecode
  rw [hdecode] at hswap
  exact absurd hswap (by simp)

end UniswapV2

end HoodSentry
