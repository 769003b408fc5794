import DHCPServer.Properties.InspectLog

namespace DHCPServer

/-- What happens between two refreshes of the page: the user changes the filter and the selections,
and the server the database. -/
structure InspectAction where
  filterByMac : Bool
  filterContent : CString
  transactionEntrySelected : Nat
  loadedTransactionSelected : Nat
  optionDetailSelected : Nat
  directory : List CString
  files : DatabaseFiles

def TabInspect.edited (t : TabInspect) (a : InspectAction) : TabInspect := { t with
  filterByMac := a.filterByMac
  filterContent := a.filterContent
  transactionEntrySelected := a.transactionEntrySelected
  loadedTransactionSelected := a.loadedTransactionSelected
  optionDetailSelected := a.optionDetailSelected }

/-- An action and the refresh behind it. -/
def TabInspect.act (t : TabInspect) (a : InspectAction) : Except ActionError TabInspect :=
  (t.edited a).refresh a.directory a.files

/-- The entries and the messages were read together from the database as one of the actions has left
it, the messages from the file of the entry at the index. -/
structure ReadBy (past : List InspectAction) (t : TabInspect) (i : Nat) : Prop where
  read : ∃ a ∈ past, ∃ entry messages, a.filterContent = t.filterContentLast ∧
    listTransactions (tabInspectNew.edited a) a.directory = .ok t.transactionEntries ∧
    t.transactionEntries[i]? = some entry ∧
    databaseLoadEntry a.files (entryPath entry) = .ok messages ∧
    t.loadedTransaction = messages.map DatabaseMessage.spaced

/-- The details and the options are those of the message at the index. -/
structure ShowsMessage (t : TabInspect) (i : Nat) : Prop where
  shown : ∃ m, t.loadedTransaction[i]? = some m ∧ t.loadedMessage = messageDetails m ∧
    loadMessageOptions m.options = .ok t.loadedDhcpOptions

/-- The menus of messages and options list what the page holds. -/
structure MenusMatch (t : TabInspect) : Prop where
  messages : t.loadedTransactionMsgTypes = t.loadedTransaction.map DatabaseMessage.msgType
  options : t.dhcpOptionEntries = t.loadedDhcpOptions.map fun o => decimal o.tag.toNat

/-- What the page remembers to have loaded last is what it holds. -/
structure Coherent (past : List InspectAction) (t : TabInspect) : Prop where
  idle : t.transactionEntries = [] → t.loadedTransactionSelectedLast = none
  transaction : t.transactionEntries ≠ [] → ∀ i, t.transactionEntrySelectedLast = some i →
    ReadBy past t i
  first : t.transactionEntries ≠ [] → 1 < t.filterContentLast.length →
    t.transactionEntrySelectedLast = some 0
  message : ∀ i, t.loadedTransactionSelectedLast = some i → ShowsMessage t i
  option : t.loadedTransactionSelectedLast ≠ none → ∀ i, t.optionDetailSelectedLast = some i →
    t.loadedDhcpOptions[i]? = some t.selectedDhcpOption
  menus : MenusMatch t

/-- The page shows what is selected: the transaction that was read with the list, its message, and
the option, and the menus are those of the transaction and of the message. With nothing to select
the details are blank, but the menus stay as they were before the refresh. -/
structure ShowsSelection (past : List InspectAction) (before t : TabInspect) : Prop where
  blank : t.transactionEntries = [] → t.loadedMessage = noDetails ∧ t.selectedDhcpOption = noOption
  stale : t.transactionEntries = [] → KeepsMenus before t
  menus : MenusMatch t
  transaction : t.transactionEntries ≠ [] → ReadBy past t t.transactionEntrySelected
  message : t.transactionEntries ≠ [] → ShowsMessage t t.loadedTransactionSelected
  option : t.transactionEntries ≠ [] →
    t.loadedDhcpOptions[t.optionDetailSelected]? = some t.selectedDhcpOption
  filter : t.filterContentLast = t.filterContent
  first : t.transactionEntries ≠ [] → 1 < t.filterContent.length → t.transactionEntrySelected = 0

section Steps

variable {past : List InspectAction} {a : InspectAction} {t t' : TabInspect}

/-- Of the page only the filter matters for the list. -/
theorem listTransactions_congr (hmac : t'.filterByMac = t.filterByMac)
    (hcontent : t'.filterContent = t.filterContent) (paths : List CString) :
    listTransactions t' paths = listTransactions t paths := by
  induction paths with
  | nil => rfl
  | cons path paths ih =>
    have hpasses : passesFilter t' path = passesFilter t path := by
      rw [passesFilter, passesFilter, hmac, hcontent]
    rw [listTransactions, listTransactions, hpasses, ih]

theorem coherent_new : Coherent [] tabInspectNew where
  idle := fun _ => rfl
  transaction := fun h => absurd rfl h
  first := fun h => absurd rfl h
  message := nofun
  option := fun h => absurd rfl h
  menus := ⟨rfl, rfl⟩

/-- The user changes nothing that the page remembers. -/
theorem Coherent.edited (h : Coherent past t) (a : InspectAction) :
    Coherent (past ++ [a]) (t.edited a) where
  idle := h.idle
  transaction := by
    intro hne i hi
    obtain ⟨b, hb, hread⟩ := (h.transaction hne i hi).read
    exact ⟨b, List.mem_append_left _ hb, hread⟩
  first := h.first
  message := fun i hi => ⟨(h.message i hi).shown⟩
  option := h.option
  menus := ⟨h.menus.messages, h.menus.options⟩

/-- Reading the directory makes the list, the selected transaction and the index agree, and forgets
the message. -/
theorem Coherent.reload (hc : Coherent past t)
    (h : reload a.directory a.files (t.edited a) = .ok t') : Coherent (past ++ [a]) t' := by
  obtain ⟨entries, hlist, hr⟩ := reload_spec h
  have hnew : listTransactions (tabInspectNew.edited a) a.directory = .ok entries := by
    rw [← hlist]
    exact @listTransactions_congr (t.edited a) (tabInspectNew.edited a) rfl rfl _
  constructor
  case idle => exact fun _ => hr.loadedTransactionSelectedLast
  case transaction =>
    intro hne i hi
    rw [hr.transactionEntries] at hne
    rw [hr.transactionEntrySelectedLast, Option.some.injEq] at hi
    obtain ⟨entry, messages, hentry, hload, hloaded⟩ := hr.loadedTransaction hne
    rw [hi, ← hr.transactionEntries] at hentry
    exact ⟨a, by simp, entry, messages, hr.filterContentLast.symm, hr.transactionEntries ▸ hnew,
      hentry, hload, hloaded⟩
  case first =>
    intro hne hlong
    rw [hr.transactionEntries] at hne
    rw [hr.filterContentLast] at hlong
    have hdirectory : a.directory ≠ [] := by
      intro hnil
      rw [hnil] at hlist
      exact hne (Except.ok.inj hlist).symm
    rw [hr.transactionEntrySelectedLast, selectedAfter, if_pos ⟨hlong, hdirectory⟩]
  case message =>
    intro i hi
    rw [hr.loadedTransactionSelectedLast] at hi
    cases hi
  case option => exact fun hne => absurd hr.loadedTransactionSelectedLast hne
  case menus =>
    have hm := hc.menus
    refine ⟨?_, by rw [hr.dhcpOptionEntries, hr.loadedDhcpOptions]; exact hm.options⟩
    by_cases hempty : entries = []
    · have hk := hr.menus hempty
      rw [hk.loadedTransactionMsgTypes, hk.loadedTransaction]
      exact hm.messages
    · exact hr.loadedTransactionMsgTypes hempty

/-- The message that is selected is loaded, unless it is the one that is shown. -/
theorem loadSelectedMessage_cases (h : loadSelectedMessage t = .ok t') :
    (t.loadedTransactionSelectedLast = some t.loadedTransactionSelected ∧ t' = t) ∨
    (t.transactionEntries = [] ∧ t' = { t with loadedMessage := noDetails }) ∨
    (t.transactionEntries ≠ [] ∧ ∃ m options,
      t.loadedTransaction[t.loadedTransactionSelected]? = some m ∧
      loadMessageOptions m.options = .ok options ∧
      t' = { t with
        loadedMessage := messageDetails m
        optionDetailSelected := 0
        optionDetailSelectedLast := none
        loadedDhcpOptions := options
        dhcpOptionEntries := options.map fun o => decimal o.tag.toNat
        loadedTransactionSelectedLast := some t.loadedTransactionSelected }) := by
  unfold loadSelectedMessage at h
  split at h
  · rename_i hsame
    cases h
    exact .inl ⟨hsame, rfl⟩
  split at h
  · rename_i hempty
    cases h
    exact .inr (.inl ⟨hempty, rfl⟩)
  · rename_i hne
    split at h
    · cases h
    · rename_i m hm
      obtain ⟨options, hoptions, h⟩ := seq_ok.mp h
      cases h
      exact .inr (.inr ⟨hne, m, options, hm, mapError_ok.mp hoptions, rfl⟩)

theorem loadSelectedOption_cases (h : loadSelectedOption t = .ok t') :
    (t.transactionEntries = [] ∧ t' = { t with selectedDhcpOption := noOption }) ∨
    (t.transactionEntries ≠ [] ∧ t.optionDetailSelectedLast = some t.optionDetailSelected ∧
      t' = t) ∨
    (t.transactionEntries ≠ [] ∧ ∃ o, t.loadedDhcpOptions[t.optionDetailSelected]? = some o ∧
      t' = { t with
        selectedDhcpOption := o
        optionDetailSelectedLast := some t.optionDetailSelected }) := by
  unfold loadSelectedOption at h
  split at h
  · rename_i hempty
    cases h
    exact .inl ⟨hempty, rfl⟩
  rename_i hne
  split at h
  · rename_i hsame
    cases h
    exact .inr (.inl ⟨hne, hsame, rfl⟩)
  · split at h
    · cases h
    · rename_i o ho
      cases h
      exact .inr (.inr ⟨hne, o, ho, rfl⟩)

/-- Loading the message keeps the page coherent, and then the message that is selected is shown. -/
theorem Coherent.loadMessage (hc : Coherent past t) (h : loadSelectedMessage t = .ok t') :
    Coherent past t' ∧ (t'.transactionEntries = [] → t'.loadedMessage = noDetails) ∧
      (t'.transactionEntries ≠ [] →
        t'.loadedTransactionSelectedLast = some t'.loadedTransactionSelected) := by
  rcases loadSelectedMessage_cases h with ⟨hsame, rfl⟩ | ⟨hempty, rfl⟩ |
    ⟨hne, m, options, hm, hoptions, rfl⟩
  · refine ⟨hc, fun hempty => ?_, fun _ => hsame⟩
    rw [hc.idle hempty] at hsame
    cases hsame
  · have hnone := hc.idle hempty
    refine ⟨⟨hc.idle, fun hne => absurd hempty hne, hc.first, ?_, hc.option,
      ⟨hc.menus.messages, hc.menus.options⟩⟩, fun _ => rfl, fun hne => absurd hempty hne⟩
    intro i hi
    rw [show t.loadedTransactionSelectedLast = none from hnone] at hi
    cases hi
  · refine ⟨⟨fun hempty => absurd hempty hne, ?_, hc.first, ?_, nofun, ⟨hc.menus.messages, rfl⟩⟩,
      fun hempty => absurd hempty hne, fun _ => rfl⟩
    · exact fun hne i hi => ⟨(hc.transaction hne i hi).read⟩
    · intro i hi
      obtain rfl := Option.some.inj hi
      exact ⟨m, hm, rfl, hoptions⟩

/-- Loading the option keeps the page coherent, and then the option that is selected is shown. -/
theorem Coherent.loadOption (hc : Coherent past t)
    (hlast : t.transactionEntries ≠ [] →
      t.loadedTransactionSelectedLast = some t.loadedTransactionSelected)
    (h : loadSelectedOption t = .ok t') :
    Coherent past t' ∧ (t'.transactionEntries = [] → t'.selectedDhcpOption = noOption) ∧
      (t'.transactionEntries ≠ [] →
        t'.loadedDhcpOptions[t'.optionDetailSelected]? = some t'.selectedDhcpOption) := by
  have hmenus := hc.menus
  rcases loadSelectedOption_cases h with ⟨hempty, rfl⟩ | ⟨hne, hsame, rfl⟩ | ⟨hne, o, ho, rfl⟩
  · refine ⟨⟨hc.idle, fun hne => absurd hempty hne, hc.first, ?_, ?_,
      ⟨hmenus.messages, hmenus.options⟩⟩, fun _ => rfl, fun hne => absurd hempty hne⟩
    · exact fun i hi => ⟨(hc.message i hi).shown⟩
    · exact fun hne => absurd (hc.idle hempty) hne
  · refine ⟨hc, fun hempty => absurd hempty hne, fun _ => ?_⟩
    have hsome : t'.loadedTransactionSelectedLast ≠ none := by
      rw [hlast hne]
      nofun
    exact hc.option hsome _ hsame
  · refine ⟨⟨hc.idle, ?_, hc.first, ?_, ?_, ⟨hmenus.messages, hmenus.options⟩⟩,
      fun hempty => absurd hempty hne, fun _ => ho⟩
    · exact fun hne i hi => ⟨(hc.transaction hne i hi).read⟩
    · exact fun i hi => ⟨(hc.message i hi).shown⟩
    · intro _ i hi
      obtain rfl := Option.some.inj hi
      exact ho

/-- The list and what is selected in it stay the same, and so do the filters. -/
structure KeepsEntries (t t' : TabInspect) : Prop where
  transactionEntries : t'.transactionEntries = t.transactionEntries
  transactionEntrySelected : t'.transactionEntrySelected = t.transactionEntrySelected
  transactionEntrySelectedLast : t'.transactionEntrySelectedLast = t.transactionEntrySelectedLast
  filterContent : t'.filterContent = t.filterContent
  filterContentLast : t'.filterContentLast = t.filterContentLast

theorem loadSelectedMessage_keeps (h : loadSelectedMessage t = .ok t') : KeepsEntries t t' := by
  rcases loadSelectedMessage_cases h with ⟨-, rfl⟩ | ⟨-, rfl⟩ | ⟨-, _, _, -, -, rfl⟩ <;>
    exact ⟨rfl, rfl, rfl, rfl, rfl⟩

theorem loadSelectedOption_keeps (h : loadSelectedOption t = .ok t') :
    KeepsEntries t t' ∧ t'.loadedMessage = t.loadedMessage ∧
      t'.loadedTransactionSelected = t.loadedTransactionSelected ∧
      t'.loadedTransactionSelectedLast = t.loadedTransactionSelectedLast := by
  rcases loadSelectedOption_cases h with ⟨-, rfl⟩ | ⟨-, -, rfl⟩ | ⟨-, _, -, rfl⟩ <;>
    exact ⟨⟨rfl, rfl, rfl, rfl, rfl⟩, rfl, rfl, rfl⟩

/-- While there is nothing to select, a refresh keeps the menus. -/
theorem act_keepsMenus (h : t.act a = .ok t') (hempty : t'.transactionEntries = []) :
    KeepsMenus t t' := by
  unfold TabInspect.act TabInspect.refresh at h
  obtain ⟨t₁, hupdate, hrest⟩ := seq_ok.mp h
  obtain ⟨t₂, hmessage, hoption⟩ := seq_ok.mp hrest
  have hempty₂ : t₂.transactionEntries = [] :=
    (loadSelectedOption_keeps hoption).1.transactionEntries ▸ hempty
  have hempty₁ : t₁.transactionEntries = [] :=
    (loadSelectedMessage_keeps hmessage).transactionEntries ▸ hempty₂
  have h₁ : KeepsMenus t t₁ := by
    unfold TabInspect.update at hupdate
    split at hupdate
    · obtain ⟨entries, -, hr⟩ := reload_spec hupdate
      have hk := hr.menus (hr.transactionEntries ▸ hempty₁)
      exact ⟨hk.loadedTransaction, hk.loadedTransactionMsgTypes, hk.loadedDhcpOptions,
        hk.dhcpOptionEntries⟩
    · cases hupdate
      exact ⟨rfl, rfl, rfl, rfl⟩
  have h₂ : KeepsMenus t₁ t₂ := by
    rcases loadSelectedMessage_cases hmessage with ⟨-, rfl⟩ | ⟨-, rfl⟩ | ⟨hne, -⟩
    · exact ⟨rfl, rfl, rfl, rfl⟩
    · exact ⟨rfl, rfl, rfl, rfl⟩
    · exact absurd hempty₁ hne
  have h₃ : KeepsMenus t₂ t' := by
    rcases loadSelectedOption_cases hoption with ⟨-, rfl⟩ | ⟨hne, -⟩ | ⟨hne, -⟩
    · exact ⟨rfl, rfl, rfl, rfl⟩
    · exact absurd hempty₂ hne
    · exact absurd hempty₂ hne
  exact (h₁.trans h₂).trans h₃

/-- Once the directory has been read, if it had to be, the list is up to date. -/
theorem Coherent.update (hc : Coherent past t)
    (h : (t.edited a).update a.directory a.files = .ok t') :
    Coherent (past ++ [a]) t' ∧ ¬t'.Outdated := by
  unfold TabInspect.update at h
  split at h
  · obtain ⟨entries, -, hr⟩ := reload_spec h
    refine ⟨hc.reload h, ?_⟩
    unfold TabInspect.Outdated
    rw [hr.filterContent, hr.filterContentLast, hr.transactionEntrySelected,
      hr.transactionEntrySelectedLast]
    simp
  · rename_i hout
    cases h
    exact ⟨hc.edited a, hout⟩

/-- An action with its refresh keeps the page coherent and leaves it showing what is selected. -/
theorem Coherent.act (hc : Coherent past t) (h : t.act a = .ok t') :
    Coherent (past ++ [a]) t' ∧ ShowsSelection (past ++ [a]) t t' := by
  have hstale := act_keepsMenus h
  unfold TabInspect.act TabInspect.refresh at h
  obtain ⟨t₁, hupdate, hrest⟩ := seq_ok.mp h
  obtain ⟨t₂, hmessage, hoption⟩ := seq_ok.mp hrest
  obtain ⟨hc₁, hnow⟩ := hc.update hupdate
  obtain ⟨hc₂, hblank, hlast⟩ := hc₁.loadMessage hmessage
  obtain ⟨hc₃, hnone, hshown⟩ := hc₂.loadOption hlast hoption
  have hk := loadSelectedMessage_keeps hmessage
  obtain ⟨hk', hdetails, hselected, hselectedLast⟩ := loadSelectedOption_keeps hoption
  obtain ⟨hfilter, hindex⟩ := not_or.mp hnow
  have hcontent : t'.filterContentLast = t'.filterContent := by
    rw [hk'.filterContentLast, hk.filterContentLast, hk'.filterContent, hk.filterContent]
    exact (not_not.mp hfilter).symm
  have hentry : t'.transactionEntrySelectedLast = some t'.transactionEntrySelected := by
    rw [hk'.transactionEntrySelectedLast, hk.transactionEntrySelectedLast,
      hk'.transactionEntrySelected, hk.transactionEntrySelected]
    exact not_not.mp hindex
  refine ⟨hc₃, ⟨?_, hstale, hc₃.menus, ?_, ?_, hshown, hcontent, ?_⟩⟩
  · intro hempty
    refine ⟨?_, hnone hempty⟩
    rw [hdetails]
    exact hblank (hk'.transactionEntries ▸ hempty)
  · exact fun hne => hc₃.transaction hne _ hentry
  · intro hne
    apply hc₃.message
    rw [hselected, hselectedLast]
    exact hlast (hk'.transactionEntries ▸ hne)
  · intro hne hlong
    have hfirst := hc₃.first hne (hcontent ▸ hlong)
    exact Option.some.inj (hentry.symm.trans hfirst)

end Steps

/-- In every run of the page, whatever the user selects and filters by and whatever becomes of the
database in between: behind each refresh the page shows the message and the option that are
selected, of the transaction that was read together with the list, and the menus that belong to
them. While a filter of two or more characters is set, only the first entry can be shown. -/
theorem inspect_page_shows_selection {actions : List InspectAction} {a : InspectAction}
    {before t : TabInspect} (hbefore : actions.foldlM TabInspect.act tabInspectNew = .ok before)
    (h : before.act a = .ok t) : ShowsSelection (actions ++ [a]) before t := by
  have key : ∀ past : List InspectAction, ∀ t₀ t, Coherent past t₀ → ∀ actions,
      actions.foldlM TabInspect.act t₀ = .ok t → Coherent (past ++ actions) t := by
    intro past t₀ t hc actions
    induction actions generalizing past t₀ with
    | nil =>
      intro h
      cases h
      simpa using hc
    | cons b actions ih =>
      intro h
      rw [List.foldlM_cons] at h
      obtain ⟨t₁, hact, hrest⟩ := seq_ok.mp h
      have hall := ih (past ++ [b]) t₁ (hc.act hact).1 hrest
      rwa [List.append_assoc, List.singleton_append] at hall
  have hc := key [] tabInspectNew before coherent_new actions hbefore
  rw [List.nil_append] at hc
  exact (hc.act h).2

/-- A look at a message of the only client and at one of its options, after a DISCOVER has been
answered. -/
def lookAt (message option : Nat) : InspectAction where
  filterByMac := false
  filterContent := []
  transactionEntrySelected := 0
  loadedTransactionSelected := message
  optionDetailSelected := option
  directory := [databasePath firstClient.1 firstClient.2]
  files := databaseStoreAll (fun _ => none) (history smallServer [discoverBy 1001 7 1])

/-- The user looks at the DISCOVER, then at the OFFER, and at the second option of the OFFER. -/
theorem inspect_page_shows_offer :
    ∃ before t, [lookAt 0 0, lookAt 1 0].foldlM TabInspect.act tabInspectNew = .ok before ∧
      before.act (lookAt 1 1) = .ok t ∧
      ShowsSelection ([lookAt 0 0, lookAt 1 0] ++ [lookAt 1 1]) before t ∧
      t.selectedDhcpOption.nameStr = "IP address lease time".toList ∧
      t.selectedDhcpOption.valueStr = "3600".toList := by
  obtain ⟨t, h, htest⟩ := exists_ok_of_any (show
    (([lookAt 0 0, lookAt 1 0].foldlM TabInspect.act tabInspectNew >>= fun before =>
      before.act (lookAt 1 1)).toOption.any (fun t =>
        t.selectedDhcpOption.nameStr == "IP address lease time".toList &&
          t.selectedDhcpOption.valueStr == "3600".toList)) = true by decide +kernel)
  obtain ⟨before, hbefore, hact⟩ := seq_ok.mp h
  rw [Bool.and_eq_true, beq_iff_eq, beq_iff_eq] at htest
  exact ⟨before, t, hbefore, hact, inspect_page_shows_selection hbefore hact, htest⟩

end DHCPServer
