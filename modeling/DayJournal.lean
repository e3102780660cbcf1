import DayJournal.Session
import DayJournal.Settings.Load
import DayJournal.Proofs.Header
import DayJournal.Proofs.Outline
import DayJournal.Proofs.DayUpdate
import DayJournal.Proofs.Pages
import DayJournal.Proofs.Canonical
import DayJournal.Proofs.Outcome
import DayJournal.Proofs.SingleLine
import DayJournal.Proofs.DayLines
import DayJournal.Proofs.Running
import DayJournal.Proofs.Coherence
import DayJournal.Proofs.Calls
import DayJournal.Proofs.CoherentRuns
import DayJournal.Proofs.PlainContent
import DayJournal.Proofs.PlainDocument
import DayJournal.Proofs.DatedDocument
import DayJournal.Proofs.EntryMap
import DayJournal.Proofs.Batch
import DayJournal.Proofs.Insertion
import DayJournal.Proofs.Deletion
import DayJournal.Proofs.Effects
import DayJournal.Proofs.Performing
import DayJournal.Proofs.Reversal
import DayJournal.Proofs.Timeline
import DayJournal.Proofs.Tracking
import DayJournal.Proofs.LinearHistory
import DayJournal.Proofs.YearlessDates
import DayJournal.Proofs.PatternBounds
import DayJournal.Proofs.RelativeMarks
import DayJournal.Proofs.RereadEntries
import DayJournal.Proofs.SavedMarks
import DayJournal.Proofs.DateChanges
import DayJournal.Proofs.EntryRegister
import DayJournal.Proofs.TagDeletion
import DayJournal.Proofs.Words
import DayJournal.Proofs.Sorting
import DayJournal.Proofs.FilterClauses
import DayJournal.Proofs.FilterMeaning
import DayJournal.Proofs.TrimmedLines
import DayJournal.Proofs.RowPlaces
import DayJournal.Proofs.Repetitions
import DayJournal.Proofs.DateRange
import DayJournal.Proofs.SurveyAgreement
import DayJournal.Proofs.ReplacedContent
import DayJournal.Proofs.HistorySteps
import DayJournal.Proofs.ContentChanges
import DayJournal.Proofs.DatedRows
import DayJournal.Proofs.LineRoundTrip
import DayJournal.Proofs.TameChanges
import DayJournal.Proofs.Refusals
import DayJournal.Proofs.FailedSteps
import DayJournal.Proofs.BrokenBatches
import DayJournal.Proofs.Pruning
import DayJournal.Proofs.RepeatedLocations
import DayJournal.Proofs.NotedPages
import DayJournal.Proofs.TidiedLines
import DayJournal.Proofs.DeletionCycles
import DayJournal.Proofs.PrunedDays
import DayJournal.Proofs.MovedEntries
import DayJournal.Proofs.InsertedEntries
import DayJournal.Proofs.TagMarks
import DayJournal.Proofs.TagAgreement
import DayJournal.Proofs.LastWrite
import DayJournal.Proofs.ChangesInPlace
import DayJournal.Proofs.FirstMark
import DayJournal.Proofs.TagRenaming
import DayJournal.Proofs.NearestDates
import DayJournal.Proofs.DaysApart
import DayJournal.Proofs.TokenDirections
import DayJournal.Proofs.SettledContents
import DayJournal.Proofs.UnknownTokens
import DayJournal.Proofs.TagListing
import DayJournal.Proofs.TrailingTags
import DayJournal.Proofs.HistoryBounds
import DayJournal.Proofs.DaySpans
