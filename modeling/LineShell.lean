import LineShell.CommandLine.Spelling
import LineShell.Editor.Keys
import LineShell.Editor.Screen
import LineShell.Main
import LineShell.Proofs.SpellingRoundTrip
import LineShell.Proofs.CharacterOctets
import LineShell.Proofs.KeyRuns
import LineShell.Proofs.ScreenFidelity
import LineShell.Proofs.HistoryAdditions
import LineShell.Proofs.PipelineIsolation
import LineShell.Proofs.SessionRuns
import LineShell.Proofs.SavedFile
import LineShell.Proofs.SessionHistory
import LineShell.Proofs.TypedScreen
import LineShell.Proofs.CutLines
import LineShell.Proofs.ReadingCharacters
import LineShell.Proofs.WholeKeys
import LineShell.Proofs.LineEnds
import LineShell.Proofs.SessionRounds
import LineShell.Proofs.BuiltinOutput
import LineShell.Proofs.RedirectedStreams
import LineShell.Proofs.StageCourses
import LineShell.Proofs.PipelineWiring
import LineShell.Proofs.InterruptedReads
import LineShell.Proofs.SavedPlace
import LineShell.Proofs.UnreadableHistory
import LineShell.Proofs.UnreadInput
import LineShell.Proofs.AlikeSessions
import LineShell.Proofs.AlikeRuns
import LineShell.Proofs.LastLine
import LineShell.Proofs.PromptAgain
import LineShell.Proofs.FinalNewline
import LineShell.Proofs.Candidates
import LineShell.Proofs.CompletedLines
import LineShell.Proofs.JoinedPaths
import LineShell.Proofs.ReachesAfterOpening
import LineShell.Proofs.CompletionLookup
import LineShell.Proofs.KeptTerminal
import LineShell.Proofs.TerminalModes
import LineShell.Proofs.CommonBeginnings
import LineShell.Proofs.EchoedText
import LineShell.Proofs.UnseenText
import LineShell.Proofs.EchoedSessions
import LineShell.Proofs.AbandonedLines
import LineShell.History.Operation
import LineShell.Proofs.ReachableHistories
import LineShell.Proofs.SavedRecords
import LineShell.Proofs.AppendedFile
import LineShell.Proofs.AppendedLines
import LineShell.Proofs.BuiltinStage
import LineShell.Proofs.ExactCompletion
import LineShell.Proofs.RepeatedTab
import LineShell.Proofs.PassedPlaces
import LineShell.Proofs.AskedPaths
import LineShell.Proofs.StageTasks
import LineShell.Proofs.FreshFile
import LineShell.Proofs.ApartFromFile
import LineShell.Proofs.PipelineFlow
import LineShell.Proofs.CutPipeline
import LineShell.Proofs.BlankRuns
import LineShell.Proofs.GatheredWords
import LineShell.Proofs.OpenEnds
import LineShell.Proofs.CursorWalk
import LineShell.Proofs.Resynchronisation
import LineShell.Proofs.TakenReads
import LineShell.Proofs.NamesWithSlash
import LineShell.Proofs.AppendedRecords
import LineShell.Proofs.SinkWrites
import LineShell.Proofs.OpenedFiles
import LineShell.Proofs.WrittenPieces
import LineShell.Proofs.SharedFile
import LineShell.Proofs.FollowedPaths
import LineShell.Proofs.ChangedDirectory
import LineShell.Proofs.WrittenNumerals
import LineShell.Proofs.BuiltinEffects
import LineShell.Proofs.RelativeHome
