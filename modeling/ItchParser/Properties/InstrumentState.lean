import ItchParser.Properties.Registration

/-!
# What is known about an instrument

An instrument keeps the last stock directory message for its locate, also one that came after its
first order. Trading actions and Reg SHO messages are kept only from the moment on at which the
instrument exists: one that comes before the first stock directory message and the first order is
lost. No other call changes what is known about an instrument, and none drops it.
-/

namespace ItchParser

open Machine

/-- The fields that a stock directory message fills in. -/
structure Directory where
  symbol : Stock
  marketCategory : MarketCategory
  financialStatus : FinancialStatusIndicator
  roundLotSize : RoundLotSize
  roundLotsOnly : RoundLotsOnly
  authenticity : Authenticity
  shortScale : ShortScaleThresholdIndicator
  ipoFlag : IPOFlag
  luldTier : LULDReferencePriceTier
  etpFlag : ETPFlag
  etpLeverageFactor : ETPLeverageFactor
  inverseIndicator : InverseIndicator
  deriving DecidableEq

namespace Instrument

/-- What an instrument has kept of its stock directory message. -/
def directory (inst : Instrument) : Directory :=
  ⟨inst.symbol, inst.marketCategory, inst.financialStatus, inst.roundLotSize, inst.roundLotsOnly,
    inst.authenticity, inst.shortScale, inst.ipoFlag, inst.luldTier, inst.etpFlag,
    inst.etpLeverageFactor, inst.inverseIndicator⟩

/-- An instrument without its book. -/
def listing (inst : Instrument) : Instrument :=
  { inst with book := none }

/-- Creating the book changes nothing that is listed. -/
theorem listing_ensureBook (inst : Instrument) : inst.ensureBook.listing = inst.listing := by
  unfold ensureBook
  split <;> rfl

end Instrument

namespace Call

/-- What a stock directory message for the locate `l` says. -/
def directoryOf (l : StockLocate) : Call → Option Directory
  | .stockDirectory locate symbol mc fsi rls rlo auth ssti ipo luld etp elf inv =>
      if locate = l then some ⟨symbol, mc, fsi, rls, rlo, auth, ssti, ipo, luld, etp, elf, inv⟩
      else none
  | _ => none

/-- What a trading action for the locate `l` says. -/
def tradingStateOf (l : StockLocate) : Call → Option TradingState
  | .tradingAction locate state _ _ => if locate = l then some state else none
  | _ => none

/-- What a Reg SHO message for the locate `l` says. -/
def regShoOf (l : StockLocate) : Call → Option RegSHOAction
  | .regSho locate action => if locate = l then some action else none
  | _ => none

/-- The instrument of `l` after the call. -/
def write (l : StockLocate) (inst : Instrument) : Call → Instrument
  | .stockDirectory locate symbol mc fsi rls rlo auth ssti ipo luld etp elf inv =>
      if locate = l then
        { inst.setSymbol symbol with
          marketCategory := mc
          financialStatus := fsi
          roundLotSize := rls
          roundLotsOnly := rlo
          authenticity := auth
          shortScale := ssti
          ipoFlag := ipo
          luldTier := luld
          etpFlag := etp
          etpLeverageFactor := elf
          inverseIndicator := inv }
      else inst
  | .tradingAction locate state _ _ =>
      if locate = l then { inst with tradingState := state } else inst
  | .regSho locate action => if locate = l then { inst with regSHOAction := action } else inst
  | _ => inst

end Call

namespace MatchingEngine

variable {e : MatchingEngine} {c : Call} {l : StockLocate} {oc lc : UInt64} {cs : List Call}
  {rollback accept : EngineStats → EngineStats}

/-! ## What the handlers do to the instruments -/

/-- What is known about each locate, apart from its book. -/
def listings (e : MatchingEngine) (l : StockLocate) : Option Instrument :=
  (e.instruments.slots l).map Instrument.listing

@[simp] theorem listings_count (f : EngineStats → EngineStats) :
    (e.count f).listings = e.listings := rfl

@[simp] theorem listings_putBook (locate : StockLocate) (st : BookState) :
    (e.putBook locate st).listings = e.listings := by
  funext l
  show ((e.instruments.setBook locate st.book).slots l).map _ = (e.instruments.slots l).map _
  unfold InstrumentMap.setBook
  cases hs : e.instruments.slots locate with
  | none => rfl
  | some inst =>
      by_cases hl : l = locate
      · rw [hl, hs]
        simp [InstrumentMap.set, Instrument.listing]
      · simp [InstrumentMap.set, hl]

@[simp] theorem listings_eraseOrder (id : OrderReferenceNumber) :
    (e.eraseOrder id).listings = e.listings := rfl

@[simp] theorem listings_releaseOrder (o : Ptr) : (e.releaseOrder o).listings = e.listings := rfl

@[simp] theorem listings_setOrderPool (pool : MemoryPool Order) :
    (e.setOrderPool pool).listings = e.listings := rfl

@[simp] theorem listings_constructOrder (mem : Ptr) (order : Order) :
    (e.constructOrder mem order).listings = e.listings := rfl

@[simp] theorem listings_setIndex (index : DirectOrderIndex) :
    { e with orderIndex := index }.listings = e.listings := rfl

@[simp] theorem listings_indexAdded (locate : StockLocate) (id : OrderReferenceNumber) (o : Ptr)
    (book : OrderBook) :
    (e.indexAdded locate id o book rollback accept).listings = e.listings := by
  unfold indexAdded
  split <;> simp

@[simp] theorem listings_placeOrder (locate : StockLocate) (id : OrderReferenceNumber) (o : Ptr)
    (book : OrderBook) :
    (e.placeOrder locate id o book rollback accept).listings = e.listings := by
  unfold placeOrder
  simp only
  split <;> simp

@[simp] theorem listings_reduceOrder (locate : StockLocate) (id : OrderReferenceNumber)
    (method : BookState → Ptr → Int × BookState) :
    (e.reduceOrder locate id method accept).listings = e.listings := by
  unfold reduceOrder
  split
  · simp
  · simp only
    split
    · simp
    · split
      · simp
      · split <;> simp

@[simp] theorem listings_onOrderDelete (locate : StockLocate) (id : OrderReferenceNumber) :
    (e.onOrderDelete locate id).listings = e.listings := by
  unfold onOrderDelete
  split
  · simp
  · simp only
    split
    · simp
    · split <;> simp

@[simp] theorem listings_replaceOrder (home : StockLocate) (oldId newId : OrderReferenceNumber)
    (newQty : Shares) (newPx : Price) (ts : Timestamp) (old mem : Ptr) (book : OrderBook) :
    (e.replaceOrder home oldId newId newQty newPx ts old mem book).listings = e.listings := by
  unfold replaceOrder
  simp only
  split <;> simp

@[simp] theorem listings_onOrderReplace (locate : StockLocate)
    (oldId newId : OrderReferenceNumber) (newQty : Shares) (newPx : Price) (ts : Timestamp) :
    (e.onOrderReplace locate oldId newId newQty newPx ts).listings = e.listings := by
  unfold onOrderReplace
  split
  · simp
  · simp only
    split
    · simp
    · split
      · simp
      · split <;> simp

@[simp] theorem listings_releaseSnapshot (snapshot : List Ptr) :
    (e.releaseSnapshot snapshot).listings = e.listings := by
  unfold releaseSnapshot
  induction snapshot generalizing e with
  | nil => rfl
  | cons o snapshot ih => rw [List.foldl_cons, ih, listings_releaseOrder, listings_eraseOrder]

@[simp] theorem listings_onCrossTrade (locate : StockLocate) (xtype : CrossType) :
    (e.onCrossTrade locate xtype).listings = e.listings := by
  unfold onCrossTrade
  simp only
  split
  · simp
  · split
    · simp
    · simp [closeBook]

/-- Writing an instrument. -/
theorem listings_set (locate : StockLocate) (inst : Instrument) :
    { e with instruments := e.instruments.set locate inst }.listings =
      Function.update e.listings locate (some inst.listing) := by
  funext l
  by_cases hl : l = locate
  · simp [listings, InstrumentMap.set, hl]
  · simp [listings, InstrumentMap.set, hl]

/-- Writing the instrument that `get_or_create` returned. -/
theorem listings_getOrCreate (locate : StockLocate) (inst : Instrument) :
    { e with instruments := (e.instruments.getOrCreate locate).2.set locate inst }.listings =
      Function.update e.listings locate (some inst.listing) := by
  funext l
  unfold InstrumentMap.getOrCreate
  by_cases hl : l = locate
  · simp [listings, InstrumentMap.set, hl]
  · cases hs : e.instruments.slots locate with
    | none => simp [listings, InstrumentMap.set, hl]
    | some inst' => simp [listings, InstrumentMap.set, hl]

/-- The call gives the locate an instrument, if there is none yet. -/
def Creates (e : MatchingEngine) (c : Call) (l : StockLocate) : Prop :=
  c.directory = some l ∨ e.newOrderAt c = some l

instance (e : MatchingEngine) (c : Call) (l : StockLocate) : Decidable (e.Creates c l) :=
  inferInstanceAs (Decidable (_ ∨ _))

/-- What a stock directory message writes to the list. -/
theorem listings_onStockDirectory (locate : StockLocate) (symbol : Stock) (mc : MarketCategory)
    (fsi : FinancialStatusIndicator) (rls : RoundLotSize) (rlo : RoundLotsOnly)
    (auth : Authenticity) (ssti : ShortScaleThresholdIndicator) (ipo : IPOFlag)
    (luld : LULDReferencePriceTier) (etp : ETPFlag) (elf : ETPLeverageFactor)
    (inv : InverseIndicator) :
    (e.onStockDirectory locate symbol mc fsi rls rlo auth ssti ipo luld etp elf inv).listings =
      Function.update e.listings locate
        (some ((Call.stockDirectory locate symbol mc fsi rls rlo auth ssti ipo luld etp elf
          inv).write locate ((e.listings locate).getD { locate := locate }))) := by
  have hwrite : ∀ inst, (e.instruments.getOrCreate locate).1 = inst →
      inst.listing = (e.listings locate).getD { locate := locate } := by
    rintro _ rfl
    unfold InstrumentMap.getOrCreate listings
    cases e.instruments.slots locate <;> rfl
  unfold onStockDirectory
  simp only
  split
  · rw [listings_count, listings_getOrCreate, ← hwrite _ rfl]
    simp only [Call.write, if_true]
    rfl
  · rw [listings_getOrCreate, ← hwrite _ rfl]
    simp only [Call.write, if_true]
    rfl

/-- What an add writes to the list. -/
theorem listings_onAddOrder (locate : StockLocate) (id : OrderReferenceNumber)
    (bsi : BuySellIndicator) (qty : Shares) (px : Price) (ts : Timestamp) (mpid : MPID)
    (attributed : Bool) :
    (e.onAddOrder locate id bsi qty px ts mpid attributed).listings =
      if (e.findOrder id).isSome then e.listings
      else Function.update e.listings locate
        (some ((e.listings locate).getD { locate := locate })) := by
  have hcreated : { e with
      instruments := (e.instruments.getOrCreate locate).2.set locate
        (e.instruments.getOrCreate locate).1.ensureBook }.listings =
          Function.update e.listings locate
            (some ((e.listings locate).getD { locate := locate })) := by
    rw [listings_getOrCreate, Instrument.listing_ensureBook]
    unfold InstrumentMap.getOrCreate listings
    cases e.instruments.slots locate <;> rfl
  unfold onAddOrder
  split
  · simp
  · simp only
    split
    · simpa using hcreated
    · simpa using hcreated

/-- A message that is for instruments that exist. -/
theorem listings_rewrite (locate : StockLocate) {f : Instrument → Instrument}
    (hf : ∀ inst, (f inst).listing = f inst.listing) (l : StockLocate) :
    (match e.instruments.slots locate with
      | some inst => { e with instruments := e.instruments.set locate (f inst) }
      | none => e).listings l = (e.listings l).map fun x => if locate = l then f x else x := by
  cases hs : e.instruments.slots locate with
  | none =>
      by_cases hl : locate = l
      · subst hl
        simp [listings, hs]
      · simp [hl]
  | some inst =>
      simp only [listings_set, hf]
      by_cases hl : locate = l
      · subst hl
        simp [listings, hs]
      · rw [Function.update_of_ne (Ne.symm hl)]
        simp [hl]

/-- Calls that are not about instruments. -/
theorem not_creates (hdirectory : c.directory = none) (hadd : e.newOrderAt c = none) :
    ¬ e.Creates c l := by
  rintro (h | h)
  · rw [hdirectory] at h
    cases h
  · rw [hadd] at h
    cases h

/-- A call creates the instrument of the locate or writes to the one that is there. -/
theorem listings_step (c : Call) (l : StockLocate) :
    (e.step c).listings l =
      if e.Creates c l then some (c.write l ((e.listings l).getD { locate := l }))
      else (e.listings l).map fun inst => c.write l inst := by
  have hother : ∀ {c : Call} {f : StockLocate → Option Instrument}, f = e.listings →
      c.directory = none → e.newOrderAt c = none → (∀ inst, c.write l inst = inst) →
        f l = if e.Creates c l then some (c.write l ((e.listings l).getD { locate := l }))
          else (e.listings l).map fun inst => c.write l inst := by
    rintro c f rfl hdirectory hadd hwrite
    rw [if_neg (not_creates hdirectory hadd)]
    simp only [hwrite, Option.map_id']
  cases c with
  | stockDirectory locate symbol mc fsi rls rlo auth ssti ipo luld etp elf inv =>
      refine (congrFun (listings_onStockDirectory locate symbol mc fsi rls rlo auth ssti ipo luld
        etp elf inv) l).trans ?_
      by_cases hl : locate = l
      · subst hl
        rw [Function.update_self, if_pos (.inl rfl)]
      · rw [Function.update_of_ne (Ne.symm hl), if_neg]
        · simp [Call.write, hl]
        · rintro (h | h)
          · exact hl (Option.some.inj h)
          · cases h
  | addOrder locate id bsi qty px ts mpid attributed =>
      refine (congrFun (listings_onAddOrder locate id bsi qty px ts mpid attributed) l).trans ?_
      -- a duplicate is turned away before the instrument is looked up
      by_cases hfind : (e.findOrder id).isSome
      · rw [if_pos hfind, if_neg (not_creates rfl (by rw [newOrderAt, if_pos hfind]))]
        simp [Call.write]
      · rw [if_neg hfind]
        by_cases hl : locate = l
        · subst hl
          rw [Function.update_self, if_pos (.inr (by rw [newOrderAt, if_neg hfind]))]
          rfl
        · rw [Function.update_of_ne (Ne.symm hl), if_neg]
          · simp [Call.write]
          · rintro (h | h)
            · cases h
            · rw [newOrderAt, if_neg hfind] at h
              exact hl (Option.some.inj h)
  | tradingAction locate state symbol reason =>
      rw [if_neg (not_creates rfl rfl)]
      exact listings_rewrite locate (f := fun inst => { inst with tradingState := state })
        (fun _ => rfl) l
  | regSho locate action =>
      rw [if_neg (not_creates rfl rfl)]
      exact listings_rewrite locate (f := fun inst => { inst with regSHOAction := action })
        (fun _ => rfl) l
  | orderExecuted locate id execQty matchNo =>
      exact hother (f := (e.onOrderExecuted locate id execQty matchNo).listings)
        (by simp [onOrderExecuted]) rfl rfl fun _ => rfl
  | orderExecutedWithPrice locate id execQty matchNo printable execPx =>
      exact hother (f := (e.onOrderExecutedWithPrice locate id execQty matchNo printable
        execPx).listings) (by simp [onOrderExecutedWithPrice]) rfl rfl fun _ => rfl
  | orderCancel locate id cancelledQty =>
      exact hother (f := (e.onOrderCancel locate id cancelledQty).listings)
        (by simp [onOrderCancel]) rfl rfl fun _ => rfl
  | orderDelete locate id => exact hother (listings_onOrderDelete _ _) rfl rfl fun _ => rfl
  | orderReplace locate oldId newId newQty newPx ts =>
      exact hother (listings_onOrderReplace _ _ _ _ _ _) rfl rfl fun _ => rfl
  | nonCrossTrade locate qty px matchNo => exact hother rfl rfl rfl fun _ => rfl
  | crossTrade locate xtype => exact hother (listings_onCrossTrade _ _) rfl rfl fun _ => rfl
  | brokenTrade locate matchNo => exact hother rfl rfl rfl fun _ => rfl

/-! ## Runs -/

section Write

variable (c : Call) (l : StockLocate) (inst : Instrument)

/-- A message leaves the locate of an instrument alone. -/
theorem write_locate : (c.write l inst).locate = inst.locate := by
  cases c with
  | stockDirectory => simp only [Call.write]; split <;> rfl
  | tradingAction => simp only [Call.write]; split <;> rfl
  | regSho => simp only [Call.write]; split <;> rfl
  | _ => rfl

/-- The directory fields that a message writes. -/
theorem write_directory :
    (c.write l inst).directory = (c.directoryOf l).getD inst.directory := by
  cases c with
  | stockDirectory => simp only [Call.write, Call.directoryOf]; split <;> rfl
  | tradingAction => simp only [Call.write, Call.directoryOf]; split <;> rfl
  | regSho => simp only [Call.write, Call.directoryOf]; split <;> rfl
  | _ => rfl

/-- The trading state that a message writes. -/
theorem write_tradingState :
    (c.write l inst).tradingState = (c.tradingStateOf l).getD inst.tradingState := by
  cases c with
  | stockDirectory => simp only [Call.write, Call.tradingStateOf]; split <;> rfl
  | tradingAction => simp only [Call.write, Call.tradingStateOf]; split <;> rfl
  | regSho => simp only [Call.write, Call.tradingStateOf]; split <;> rfl
  | _ => rfl

/-- The restriction that a message writes. -/
theorem write_regSHOAction :
    (c.write l inst).regSHOAction = (c.regShoOf l).getD inst.regSHOAction := by
  cases c with
  | stockDirectory => simp only [Call.write, Call.regShoOf]; split <;> rfl
  | tradingAction => simp only [Call.write, Call.regShoOf]; split <;> rfl
  | regSho => simp only [Call.write, Call.regShoOf]; split <;> rfl
  | _ => rfl

end Write

/-- The message that comes last counts. -/
theorem getLast?_concat_toList {α : Type} (xs : List α) (x : Option α) (d : α) :
    (xs ++ x.toList).getLast?.getD d = x.getD (xs.getLast?.getD d) := by
  cases x <;> simp

/-- The messages about the locate that came while its instrument existed. -/
def heard {α : Type} (news : Call → Option α) (l : StockLocate) (e : MatchingEngine)
    (cs : List Call) : List α :=
  outputs step (fun e c => if (e.instruments.slots l).isSome then (news c).toList else []) e cs

/-- Some call of the run created the instrument of the locate. -/
def CreatedIn (oc lc : UInt64) (cs : List Call) (l : StockLocate) : Prop :=
  ∃ pre c, pre ++ [c] <+: cs ∧ (after oc lc pre).Creates c l

/-- The instrument of the locate after the calls `cs`. -/
structure UpToDate (oc lc : UInt64) (cs : List Call) (l : StockLocate) (inst : Instrument) :
    Prop where
  locate : inst.locate = l
  directory : inst.directory = (cs.filterMap (Call.directoryOf l)).getLast?.getD
    ({} : Instrument).directory
  tradingState : inst.tradingState =
    (heard (Call.tradingStateOf l) l (create oc lc) cs).getLast?.getD TradingState.Halted
  regSHOAction : inst.regSHOAction =
    (heard (Call.regShoOf l) l (create oc lc) cs).getLast?.getD RegSHOAction.NoPriceTest

/-- An instrument is created in the run before or by the last call. -/
theorem createdIn_concat : CreatedIn oc lc (cs ++ [c]) l ↔
    CreatedIn oc lc cs l ∨ (after oc lc cs).Creates c l := by
  constructor
  · rintro ⟨pre, d, hpre, hcreates⟩
    rcases List.prefix_concat_iff.mp hpre with heq | hpre
    · obtain ⟨rfl, hd⟩ := List.append_inj' heq rfl
      cases hd
      exact .inr hcreates
    · exact .inl ⟨pre, d, hpre, hcreates⟩
  · rintro (⟨pre, d, hpre, hcreates⟩ | hcreates)
    · exact ⟨pre, d, hpre.trans (List.prefix_append _ _), hcreates⟩
    · exact ⟨cs, c, List.prefix_refl _, hcreates⟩

/-- One more call is heard when the instrument exists. -/
theorem heard_concat {α : Type} (news : Call → Option α) :
    heard news l e (cs ++ [c]) = heard news l e cs ++
      if ((run step e cs).instruments.slots l).isSome then (news c).toList else [] :=
  outputs_concat cs c

/-- What is known about a locate after a run. -/
def Described (oc lc : UInt64) (cs : List Call) (l : StockLocate) : Option Instrument → Prop
  | none => ¬ CreatedIn oc lc cs l ∧ cs.filterMap (Call.directoryOf l) = [] ∧
      heard (Call.tradingStateOf l) l (create oc lc) cs = [] ∧
      heard (Call.regShoOf l) l (create oc lc) cs = []
  | some inst => CreatedIn oc lc cs l ∧ UpToDate oc lc cs l inst

/-- The call writes to the instrument, which exists or is created by it. -/
theorem UpToDate.write {inst : Instrument} (h : UpToDate oc lc cs l inst)
    (hheard : ((after oc lc cs).instruments.slots l).isSome ∨
      c.tradingStateOf l = none ∧ c.regShoOf l = none) :
    UpToDate oc lc (cs ++ [c]) l (c.write l inst) := by
  have hconcat : ∀ {α : Type} (news : Call → Option α),
      ((after oc lc cs).instruments.slots l).isSome ∨ news c = none →
        heard news l (create oc lc) (cs ++ [c]) =
          heard news l (create oc lc) cs ++ (news c).toList := by
    intro α news hnews
    rw [heard_concat]
    split
    · rfl
    · next hnone => rw [hnews.resolve_left hnone]; rfl
  refine ⟨(write_locate c l inst).trans h.locate, ?_, ?_, ?_⟩
  · rw [write_directory, h.directory, List.filterMap_append, ← getLast?_concat_toList]
    cases hd : c.directoryOf l <;> simp [hd]
  · rw [write_tradingState, h.tradingState, hconcat _ (hheard.imp_right And.left),
      getLast?_concat_toList]
  · rw [write_regSHOAction, h.regSHOAction, hconcat _ (hheard.imp_right And.right),
      getLast?_concat_toList]

/-- A call that does not create the instrument of a locate tells nothing of its directory. -/
theorem directoryOf_eq_none (hcreates : ¬ e.Creates c l) : c.directoryOf l = none := by
  cases c with
  | stockDirectory locate _ _ _ _ _ _ _ _ _ _ _ _ =>
      exact if_neg fun hl => hcreates (.inl (congrArg some hl))
  | _ => rfl

/-- A call that creates an instrument says nothing else about it. -/
theorem quiet_of_creates (hcreates : e.Creates c l) :
    c.tradingStateOf l = none ∧ c.regShoOf l = none := by
  cases c with
  | tradingAction => exact absurd hcreates (not_creates rfl rfl)
  | regSho => exact absurd hcreates (not_creates rfl rfl)
  | _ => exact ⟨rfl, rfl⟩

/-- The list has the instruments that exist. -/
theorem listings_isSome (e : MatchingEngine) (l : StockLocate) :
    (e.instruments.slots l).isSome = (e.listings l).isSome :=
  Option.isSome_map.symm

/-- After every run the list is as the messages heard describe it. -/
theorem described_after (oc lc : UInt64) (cs : List Call) (l : StockLocate) :
    Described oc lc cs l ((after oc lc cs).listings l) := by
  refine prefix_induction (P := fun pre => Described oc lc pre l ((after oc lc pre).listings l)) cs
    ?_ fun pre c _ ih => ?_
  · refine ⟨?_, rfl, rfl, rfl⟩
    rintro ⟨pre, c, hpre, -⟩
    simp at hpre
  have hsome := listings_isSome (after oc lc pre) l
  rw [after, run_concat, listings_step]
  cases hl : (after oc lc pre).listings l with
  | none =>
      rw [hl] at ih hsome
      obtain ⟨hnot, hdirectory, hstates, hactions⟩ := ih
      by_cases hcreates : (after oc lc pre).Creates c l
      · rw [if_pos hcreates]
        have hfresh : UpToDate oc lc pre l { locate := l } :=
          ⟨rfl, by rw [hdirectory]; rfl, by rw [hstates]; rfl, by rw [hactions]; rfl⟩
        exact ⟨createdIn_concat.mpr (.inr hcreates),
          hfresh.write (.inr (quiet_of_creates hcreates))⟩
      · -- there is no instrument yet, and the message is lost
        rw [if_neg hcreates]
        have hunheard : ∀ {α : Type} (news : Call → Option α),
            heard news l (create oc lc) pre = [] →
              heard news l (create oc lc) (pre ++ [c]) = [] := by
          intro α news hnews
          rw [heard_concat, hnews, if_neg (by rw [hsome]; simp)]
          rfl
        refine ⟨fun h => (createdIn_concat.mp h).elim hnot hcreates, ?_, hunheard _ hstates,
          hunheard _ hactions⟩
        rw [List.filterMap_append, hdirectory]
        simp [directoryOf_eq_none hcreates]
  | some inst =>
      rw [hl] at ih hsome
      have hwrite := ih.2.write (c := c) (.inl hsome)
      have hcreated := createdIn_concat.mpr (.inl ih.1 : CreatedIn oc lc pre l ∨
        (after oc lc pre).Creates c l)
      split <;> exact ⟨hcreated, hwrite⟩

/-- An instrument exists once a stock directory message or an order has created it, and then it is
up to date. -/
theorem instrument_after (oc lc : UInt64) (cs : List Call) (l : StockLocate) :
    (((after oc lc cs).instruments.slots l).isSome ↔ CreatedIn oc lc cs l) ∧
      ∀ inst ∈ (after oc lc cs).instruments.slots l, UpToDate oc lc cs l inst := by
  have hdescribed := described_after oc lc cs l
  rw [listings_isSome]
  cases hl : (after oc lc cs).listings l with
  | none =>
      rw [hl] at hdescribed
      refine ⟨iff_of_false (by simp) hdescribed.1, fun inst hinst => ?_⟩
      rw [listings, hinst] at hl
      cases hl
  | some known =>
      rw [hl] at hdescribed
      refine ⟨iff_of_true rfl hdescribed.1, fun inst hinst => ?_⟩
      rw [listings, hinst] at hl
      obtain rfl := Option.some.inj hl
      exact ⟨hdescribed.2.locate, hdescribed.2.directory, hdescribed.2.tradingState,
        hdescribed.2.regSHOAction⟩

/-- The trading action before the first order is lost, the one behind it is kept. -/
example :
    let cs : List Call := [
      .tradingAction 1 (ascii 'Q') (Vector.replicate 8 0) (Vector.replicate 4 0),
      .addOrder 1 10 (ascii 'B') 300 1000000 1 MPID.blank false,
      .tradingAction 1 (ascii 'T') (Vector.replicate 8 0) (Vector.replicate 4 0)]
    heard (Call.tradingStateOf 1) 1 (create 4 4) cs = [ascii 'T'] := by decide +kernel

end MatchingEngine
end ItchParser
