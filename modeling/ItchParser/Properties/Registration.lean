import ItchParser.Engine.Runs
import Mathlib.Data.Finset.Card

/-!
# Counting registered instruments

`on_stock_directory` takes an instrument for new when the locate has no instrument object yet. An
add order that comes first creates that object as well, without counting it, so the stock directory
message behind it is not counted either. `instruments_registered` is the number of locates that were
announced by a stock directory message before any order created their instrument.
-/

namespace ItchParser

open Machine EngineStats

/-- The locate that a stock directory message announces. -/
def Call.directory : Call → Option StockLocate
  | .stockDirectory locate _ _ _ _ _ _ _ _ _ _ _ _ => some locate
  | _ => none

/-- The locates that stock directory messages have announced. -/
def directories (cs : List Call) : Finset StockLocate :=
  (cs.filterMap Call.directory).toFinset

/-- One more announcement. -/
theorem directories_concat (cs : List Call) (c : Call) (l : StockLocate) :
    l ∈ directories (cs ++ [c]) ↔ l ∈ directories cs ∨ c.directory = some l := by
  simp [directories]

namespace MatchingEngine

variable {e : MatchingEngine} {c : Call} {l : StockLocate} {oc lc : UInt64} {cs : List Call}

/-- The locate of an add order that is not turned away as a duplicate. -/
def newOrderAt (e : MatchingEngine) : Call → Option StockLocate
  | .addOrder locate id _ _ _ _ _ _ => if (e.findOrder id).isSome then none else some locate
  | _ => none

/-- An add order for the locate, not a duplicate, came before the locate's first stock directory
message. -/
def CreatedByOrder (oc lc : UInt64) (cs : List Call) (l : StockLocate) : Prop :=
  ∃ pre c, pre ++ [c] <+: cs ∧ (after oc lc pre).newOrderAt c = some l ∧ l ∉ directories pre

/-- One more order. -/
theorem createdByOrder_concat :
    CreatedByOrder oc lc (cs ++ [c]) l ↔ CreatedByOrder oc lc cs l ∨
      ((after oc lc cs).newOrderAt c = some l ∧ l ∉ directories cs) := by
  constructor
  · rintro ⟨pre, d, hpre, hnew, hfirst⟩
    rcases List.prefix_concat_iff.mp hpre with heq | hpre
    · obtain ⟨rfl, hd⟩ := List.append_inj' heq rfl
      cases hd
      exact .inr ⟨hnew, hfirst⟩
    · exact .inl ⟨pre, d, hpre, hnew, hfirst⟩
  · rintro (⟨pre, d, hpre, hnew, hfirst⟩ | ⟨hnew, hfirst⟩)
    · exact ⟨pre, d, hpre.trans (List.prefix_append _ _), hnew, hfirst⟩
    · exact ⟨cs, c, List.prefix_refl _, hnew, hfirst⟩

/-! ## What the handlers do to the registration -/

/-- Which locates have an instrument, and how many of them were counted. -/
def registry (e : MatchingEngine) : (StockLocate → Bool) × Nat :=
  (fun l => (e.instruments.slots l).isSome, e.stats.instrumentsRegistered)

/-- A handler that counts something else leaves the registration alone. -/
@[simp] theorem registry_count {f : EngineStats → EngineStats}
    (hf : ∀ s, (f s).instrumentsRegistered = s.instrumentsRegistered) :
    (e.count f).registry = e.registry :=
  Prod.ext rfl (hf e.stats)

@[simp] theorem registry_putBook (locate : StockLocate) (st : BookState) :
    (e.putBook locate st).registry = e.registry :=
  Prod.ext (funext fun _ => InstrumentMap.setBook_isSome) rfl

@[simp] theorem registry_eraseOrder (id : OrderReferenceNumber) :
    (e.eraseOrder id).registry = e.registry := rfl

@[simp] theorem registry_releaseOrder (o : Ptr) : (e.releaseOrder o).registry = e.registry := rfl

@[simp] theorem registry_setOrderPool (pool : MemoryPool Order) :
    (e.setOrderPool pool).registry = e.registry := rfl

@[simp] theorem registry_constructOrder (mem : Ptr) (order : Order) :
    (e.constructOrder mem order).registry = e.registry := rfl

@[simp] theorem registry_setIndex (index : DirectOrderIndex) :
    { e with orderIndex := index }.registry = e.registry := rfl

section Counters

variable (s : EngineStats)

@[simp] theorem registered_countUnknown :
    s.countUnknown.instrumentsRegistered = s.instrumentsRegistered := by
  unfold countUnknown
  rfl

@[simp] theorem registered_countDuplicate :
    s.countDuplicate.instrumentsRegistered = s.instrumentsRegistered := by
  unfold countDuplicate
  rfl

@[simp] theorem registered_countLevelMissing :
    s.countLevelMissing.instrumentsRegistered = s.instrumentsRegistered := by
  unfold countLevelMissing
  rfl

@[simp] theorem registered_countLevelPoolExhausted :
    s.countLevelPoolExhausted.instrumentsRegistered = s.instrumentsRegistered := by
  unfold countLevelPoolExhausted
  rfl

@[simp] theorem registered_dropBook (orders levels : Nat) :
    (s.dropBook orders levels).instrumentsRegistered = s.instrumentsRegistered := by
  unfold dropBook
  rfl

@[simp] theorem registered_raiseOrders :
    s.raiseOrders.instrumentsRegistered = s.instrumentsRegistered := by
  unfold raiseOrders
  simp only
  split <;> rfl

@[simp] theorem registered_raiseLevels (rc : Int) :
    (s.raiseLevels rc).instrumentsRegistered = s.instrumentsRegistered := by
  unfold raiseLevels
  simp only
  split
  · split <;> rfl
  · rfl

@[simp] theorem registered_dropOrder :
    s.dropOrder.instrumentsRegistered = s.instrumentsRegistered := by
  unfold dropOrder
  split <;> rfl

@[simp] theorem registered_dropLevel (rc : Int) :
    (s.dropLevel rc).instrumentsRegistered = s.instrumentsRegistered := by
  unfold dropLevel
  split <;> rfl

@[simp] theorem registered_countMismatch (home locate : StockLocate) :
    (s.countMismatch home locate).instrumentsRegistered = s.instrumentsRegistered := by
  unfold countMismatch
  split <;> rfl

end Counters

variable {rollback accept : EngineStats → EngineStats}

/-- Indexing an order registers nothing. -/
theorem registry_indexAdded
    (hrollback : ∀ s, (rollback s).instrumentsRegistered = s.instrumentsRegistered)
    (haccept : ∀ s, (accept s).instrumentsRegistered = s.instrumentsRegistered)
    (locate : StockLocate) (id : OrderReferenceNumber) (o : Ptr) (book : OrderBook) :
    (e.indexAdded locate id o book rollback accept).registry = e.registry := by
  unfold indexAdded
  split
  · simp [hrollback]
  · simp [haccept]

/-- Placing an order registers nothing. -/
theorem registry_placeOrder
    (hrollback : ∀ s, (rollback s).instrumentsRegistered = s.instrumentsRegistered)
    (haccept : ∀ s, (accept s).instrumentsRegistered = s.instrumentsRegistered)
    (locate : StockLocate) (id : OrderReferenceNumber) (o : Ptr) (book : OrderBook) :
    (e.placeOrder locate id o book rollback accept).registry = e.registry := by
  unfold placeOrder
  simp only
  split
  · simp
  · simp [registry_indexAdded hrollback haccept]

/-- E, C and X register nothing. -/
theorem registry_reduceOrder
    (haccept : ∀ s, (accept s).instrumentsRegistered = s.instrumentsRegistered)
    (locate : StockLocate) (id : OrderReferenceNumber)
    (method : BookState → Ptr → Int × BookState) :
    (e.reduceOrder locate id method accept).registry = e.registry := by
  unfold reduceOrder
  split
  · simp
  · simp only
    split
    · simp
    · split
      · simp
      · split <;> simp [haccept]

/-- D registers nothing. -/
theorem registry_onOrderDelete (locate : StockLocate) (id : OrderReferenceNumber) :
    (e.onOrderDelete locate id).registry = e.registry := by
  unfold onOrderDelete
  split
  · simp
  · simp only
    split
    · simp
    · split <;> simp

/-- The replacing order registers nothing. -/
theorem registry_replaceOrder (home : StockLocate) (oldId newId : OrderReferenceNumber)
    (newQty : Shares) (newPx : Price) (ts : Timestamp) (old mem : Ptr) (book : OrderBook) :
    (e.replaceOrder home oldId newId newQty newPx ts old mem book).registry = e.registry := by
  unfold replaceOrder
  simp only
  split
  · simp
  · simp [registry_placeOrder]

/-- U registers nothing. -/
theorem registry_onOrderReplace (locate : StockLocate) (oldId newId : OrderReferenceNumber)
    (newQty : Shares) (newPx : Price) (ts : Timestamp) :
    (e.onOrderReplace locate oldId newId newQty newPx ts).registry = e.registry := by
  unfold onOrderReplace
  split
  · simp
  · simp only
    split
    · simp
    · split
      · simp
      · split
        · simp
        · simp [registry_replaceOrder]

/-- Releasing orders registers nothing. -/
theorem registry_releaseSnapshot (snapshot : List Ptr) :
    (e.releaseSnapshot snapshot).registry = e.registry := by
  unfold releaseSnapshot
  induction snapshot generalizing e with
  | nil => rfl
  | cons o snapshot ih =>
      rw [List.foldl_cons, ih, registry_releaseOrder, registry_eraseOrder]

/-- Q registers nothing. -/
theorem registry_onCrossTrade (locate : StockLocate) (xtype : CrossType) :
    (e.onCrossTrade locate xtype).registry = e.registry := by
  unfold onCrossTrade
  simp only
  split
  · simp
  · split
    · simp
    · simp [closeBook, registry_releaseSnapshot]

/-- Replacing an instrument by one that knows more about the same locate. -/
theorem registry_setInstrument {inst : Instrument} {locate : StockLocate}
    (hslot : e.instruments.slots locate = some inst) (inst' : Instrument) :
    { e with instruments := e.instruments.set locate inst' }.registry = e.registry := by
  refine Prod.ext (funext fun l => ?_) rfl
  show (Function.update e.instruments.slots locate (some inst') l).isSome = _
  by_cases hl : l = locate
  · rw [hl, Function.update_self]
    exact (congrArg Option.isSome hslot).symm
  · rw [Function.update_of_ne hl]
    rfl

/-- After `get_or_create` there is an instrument, whatever is written to it then. -/
theorem slots_getOrCreate (im : InstrumentMap) (locate : StockLocate) (inst : Instrument)
    (l : StockLocate) : (((im.getOrCreate locate).2.set locate inst).slots l).isSome =
      ((im.slots l).isSome || l == locate) := by
  show (Function.update (im.getOrCreate locate).2.slots locate (some inst) l).isSome = _
  by_cases hl : l = locate
  · rw [hl, Function.update_self, beq_self_eq_true, Bool.or_true]
    rfl
  · rw [Function.update_of_ne hl, beq_false_of_ne hl, Bool.or_false]
    unfold InstrumentMap.getOrCreate
    cases im.slots locate with
    | none => exact congrArg Option.isSome (Function.update_of_ne hl _ _)
    | some inst => rfl

/-- R registers its locate, and counts it when it is new. -/
theorem registry_onStockDirectory (locate : StockLocate) (symbol : Stock) (mc : MarketCategory)
    (fsi : FinancialStatusIndicator) (rls : RoundLotSize) (rlo : RoundLotsOnly)
    (auth : Authenticity) (ssti : ShortScaleThresholdIndicator) (ipo : IPOFlag)
    (luld : LULDReferencePriceTier) (etp : ETPFlag) (elf : ETPLeverageFactor)
    (inv : InverseIndicator) :
    (e.onStockDirectory locate symbol mc fsi rls rlo auth ssti ipo luld etp elf inv).registry =
      (fun l => e.registry.1 l || l == locate,
        e.registry.2 + if e.registry.1 locate then 0 else 1) := by
  unfold onStockDirectory
  simp only
  cases hslot : e.instruments.slots locate with
  | none =>
      refine Prod.ext (funext fun l => slots_getOrCreate _ _ _ _) ?_
      simp [registry, hslot, count]
  | some inst =>
      refine Prod.ext (funext fun l => slots_getOrCreate _ _ _ _) ?_
      simp [registry, hslot]

/-- A and F register their locate without counting it. -/
theorem registry_onAddOrder (locate : StockLocate) (id : OrderReferenceNumber)
    (bsi : BuySellIndicator) (qty : Shares) (px : Price) (ts : Timestamp) (mpid : MPID)
    (attributed : Bool) :
    (e.onAddOrder locate id bsi qty px ts mpid attributed).registry =
      if (e.findOrder id).isSome then e.registry
      else (fun l => e.registry.1 l || l == locate, e.registry.2) := by
  unfold onAddOrder
  split
  · simp
  · simp only
    have hcreated : ∀ inst : Instrument, { e with
        instruments := (e.instruments.getOrCreate locate).2.set locate inst }.registry =
          (fun l => e.registry.1 l || l == locate, e.registry.2) := fun inst =>
      Prod.ext (funext fun l => slots_getOrCreate _ _ _ _) rfl
    split
    · simp [hcreated]
    · rw [registry_placeOrder, registry_constructOrder, registry_setOrderPool, hcreated]
      · simp
      · intro s
        split <;> rfl

/-- A stock directory message counts its locate when that has no instrument yet. An order gives its
locate an instrument, and all other calls leave the registration alone. -/
theorem registry_step (c : Call) :
    (e.step c).registry = match c.directory with
      | some locate => (fun l => e.registry.1 l || l == locate,
          e.registry.2 + if e.registry.1 locate then 0 else 1)
      | none => (fun l => e.registry.1 l || e.newOrderAt c == some l, e.registry.2) := by
  have hsame : e.newOrderAt c = none →
      (fun l => e.registry.1 l || e.newOrderAt c == some l, e.registry.2) = e.registry := by
    intro hnone
    refine Prod.ext (funext fun l => ?_) rfl
    simp [hnone]
  cases c with
  | stockDirectory => exact registry_onStockDirectory _ _ _ _ _ _ _ _ _ _ _ _ _
  | addOrder locate id bsi qty px ts mpid attributed =>
      refine (registry_onAddOrder locate id bsi qty px ts mpid attributed).trans ?_
      simp only [newOrderAt, Call.directory]
      split
      · refine Prod.ext (funext fun l => ?_) rfl
        simp
      · refine Prod.ext (funext fun l => ?_) rfl
        simp [BEq.comm]
  | tradingAction locate state symbol reason =>
      refine Eq.trans ?_ (hsame rfl).symm
      show (e.onTradingAction locate state symbol reason).registry = _
      unfold onTradingAction
      split
      · next hslot => exact registry_setInstrument hslot _
      · rfl
  | regSho locate action =>
      refine Eq.trans ?_ (hsame rfl).symm
      show (e.onRegSho locate action).registry = _
      unfold onRegSho
      split
      · next hslot => exact registry_setInstrument hslot _
      · rfl
  | orderExecuted locate id execQty matchNo =>
      refine Eq.trans ?_ (hsame rfl).symm
      rw [step, onOrderExecuted, registry_reduceOrder]
      exact fun _ => rfl
  | orderExecutedWithPrice locate id execQty matchNo printable execPx =>
      refine Eq.trans ?_ (hsame rfl).symm
      rw [step, onOrderExecutedWithPrice, registry_reduceOrder]
      exact fun _ => rfl
  | orderCancel locate id cancelledQty =>
      refine Eq.trans ?_ (hsame rfl).symm
      rw [step, onOrderCancel, registry_reduceOrder]
      exact fun _ => rfl
  | orderDelete locate id =>
      exact (registry_onOrderDelete locate id).trans (hsame rfl).symm
  | orderReplace locate oldId newId newQty newPx ts =>
      exact (registry_onOrderReplace locate oldId newId newQty newPx ts).trans (hsame rfl).symm
  | nonCrossTrade | brokenTrade => exact (hsame rfl).symm
  | crossTrade locate xtype => exact (registry_onCrossTrade locate xtype).trans (hsame rfl).symm

/-! ## Runs -/

/-- After the calls `cs` the locates with an instrument are those that were announced or had an
order, and `counted` are those announced before any order. -/
structure Registers (oc lc : UInt64) (cs : List Call) (counted : Finset StockLocate) : Prop where
  known : ∀ l, (after oc lc cs).registry.1 l = true ↔
    l ∈ directories cs ∨ CreatedByOrder oc lc cs l
  mem_counted : ∀ l, l ∈ counted ↔ l ∈ directories cs ∧ ¬ CreatedByOrder oc lc cs l
  registered : (after oc lc cs).registry.2 = counted.card

variable {counted : Finset StockLocate} {locate : StockLocate}

/-- A call that announces no locate counts none. -/
theorem Registers.other (h : Registers oc lc cs counted) (hc : c.directory = none) :
    Registers oc lc (cs ++ [c]) counted := by
  have hstep := registry_step (e := after oc lc cs) c
  rw [hc] at hstep
  refine ⟨fun l => ?_, fun l => ?_, ?_⟩
  · have hknown := h.known l
    rw [after, run_concat, hstep, createdByOrder_concat, directories_concat, hc]
    simp only [Bool.or_eq_true, beq_iff_eq, reduceCtorEq, or_false]
    tauto
  · have hcounted := h.mem_counted l
    rw [createdByOrder_concat, directories_concat, hc]
    simp only [reduceCtorEq, or_false]
    tauto
  · rw [after, run_concat, hstep]
    exact h.registered

/-- A stock directory message counts its locate when it is the first to need the instrument. -/
theorem Registers.directory (h : Registers oc lc cs counted) (hc : c.directory = some locate) :
    ∃ counted', Registers oc lc (cs ++ [c]) counted' := by
  have hstep := registry_step (e := after oc lc cs) c
  have hnew : (after oc lc cs).newOrderAt c = none := by
    cases c with
    | stockDirectory => rfl
    | _ => cases hc
  have hcreated : ∀ l, CreatedByOrder oc lc (cs ++ [c]) l ↔ CreatedByOrder oc lc cs l := by
    intro l
    rw [createdByOrder_concat, hnew]
    simp only [reduceCtorEq, false_and, or_false]
  have hdirectories : ∀ l, l ∈ directories (cs ++ [c]) ↔ l ∈ directories cs ∨ l = locate := by
    intro l
    rw [directories_concat, hc, Option.some.injEq, eq_comm (a := locate)]
  have hlocate := h.known locate
  rw [hc] at hstep
  have hknown : ∀ l, (after oc lc (cs ++ [c])).registry.1 l = true ↔
      l ∈ directories (cs ++ [c]) ∨ CreatedByOrder oc lc (cs ++ [c]) l := by
    intro l
    have hl := h.known l
    rw [after, run_concat, hstep, hcreated, hdirectories]
    simp only [Bool.or_eq_true, beq_iff_eq]
    tauto
  by_cases hbefore : (after oc lc cs).registry.1 locate = true
  · -- the instrument was there, announced before or created by an order
    refine ⟨counted, hknown, fun l => ?_, ?_⟩
    · have hl := h.mem_counted l
      rw [hcreated, hdirectories]
      by_cases he : l = locate
      · subst he
        tauto
      · tauto
    · rw [after, run_concat, hstep]
      simp only [hbefore, if_true, Nat.add_zero]
      exact h.registered
  · -- nobody has needed the instrument before
    have hfresh : locate ∉ counted := by
      rw [h.mem_counted]
      tauto
    refine ⟨insert locate counted, hknown, fun l => ?_, ?_⟩
    · have hl := h.mem_counted l
      rw [hcreated, hdirectories, Finset.mem_insert]
      by_cases he : l = locate
      · subst he
        tauto
      · tauto
    · rw [after, run_concat, hstep, Finset.card_insert_of_notMem hfresh, ← h.registered]
      simp only [hbefore, Bool.false_eq_true, if_false]

/-- After every run there is a set of counted locates. -/
theorem exists_registers (oc lc : UInt64) (cs : List Call) :
    ∃ counted, Registers oc lc cs counted := by
  refine prefix_induction (P := fun pre => ∃ counted, Registers oc lc pre counted) cs ?_ ?_
  · refine ⟨∅, fun l => ?_, fun l => ?_, rfl⟩
    · simp [directories, CreatedByOrder, registry, create, InstrumentMap.create]
    · simp [directories]
  · rintro pre c - ⟨counted, h⟩
    cases hc : c.directory with
    | none => exact ⟨counted, h.other hc⟩
    | some locate => exact h.directory hc

/-- `instruments_registered` is the number of announced locates exactly when no order came before
the announcement of its locate. -/
theorem registered_iff (oc lc : UInt64) (cs : List Call) :
    (after oc lc cs).stats.instrumentsRegistered = (directories cs).card ↔
      ∀ l ∈ directories cs, ¬ CreatedByOrder oc lc cs l := by
  obtain ⟨counted, h⟩ := exists_registers oc lc cs
  have hsub : counted ⊆ directories cs := fun l hl => ((h.mem_counted l).mp hl).1
  rw [show (after oc lc cs).stats.instrumentsRegistered = counted.card from h.registered]
  constructor
  · intro hcard l hl
    rw [← Finset.eq_of_subset_of_card_le hsub hcard.ge] at hl
    exact ((h.mem_counted l).mp hl).2
  · intro hnone
    have hall : directories cs ⊆ counted := fun l hl => (h.mem_counted l).mpr ⟨hl, hnone l hl⟩
    rw [hsub.antisymm hall]

/-- An order, then the stock directory message of its locate. -/
def lateDirectory : List Call :=
  [.addOrder 1 7 66 100 10000 5 MPID.blank false,
    .stockDirectory 1 (Vector.replicate 8 32) 81 78 100 78 80 78 78 49 78 1 78]

/-- One locate is announced and none is counted. -/
theorem lateDirectory_uncounted :
    (after 4 4 lateDirectory).stats.instrumentsRegistered ≠ (directories lateDirectory).card := by
  decide +kernel

end MatchingEngine
end ItchParser
